import Dotpath.Path.Derived
import Dotpath.Path.Order

/-!
# The order of paths is total

The comparison of paths is the library's comparison of lists of optional texts (`order_eq_compare`),
from which it has its laws: two paths are in exactly one of three relations, and the order is
transitive.  What it means is told by the first difference of the segments (`before_iff_precedes`).
All of it stands in `order_laws`, together with the other three comparisons and with what a common
beginning does, which is nothing.
-/

namespace Dotpath

/-- The code points of a text. -/
def codePoints (s : String) : List Nat := s.toList.map Char.toNat

/-- Whether a segment precedes another: null any text, and a text those with greater code points. -/
inductive PrecedesSegment : Segment → Segment → Prop
  | null (t : String) : PrecedesSegment none (some t)
  | text {s t : String} (h : codePoints s < codePoints t) : PrecedesSegment (some s) (some t)

/-- Whether segments precede others: at the first position where they differ, or because they are a
beginning of the others. -/
def PrecedesList (as bs : List Segment) : Prop :=
  (∃ i a b, as.take i = bs.take i ∧ as[i]? = some a ∧ bs[i]? = some b ∧ PrecedesSegment a b) ∨
    (as <+: bs ∧ as.length < bs.length)

/-! ## Segments -/

theorem compareSegments_eq_compare (a b : Segment) : compareSegments a b = compare a b := by
  cases a <;> cases b <;> rfl

theorem map_toNat_lt_iff {cs ds : List Char} : cs.map Char.toNat < ds.map Char.toNat ↔ cs < ds := by
  induction cs generalizing ds with
  | nil => cases ds <;> simp
  | cons c cs ih =>
    cases ds with
    | nil => simp
    | cons d ds =>
      rw [List.map_cons, List.map_cons, List.cons_lt_cons_iff, List.cons_lt_cons_iff, ih,
        Char.toNat_inj]
      rfl

theorem compareSegments_eq_lt {a b : Segment} :
    compareSegments a b = .lt ↔ PrecedesSegment a b := by
  constructor
  · intro hlt
    cases a with
    | none =>
      cases b with
      | none => cases hlt
      | some t => exact .null t
    | some s =>
      cases b with
      | none => cases hlt
      | some t =>
        exact .text (map_toNat_lt_iff.2 (String.lt_iff.1 (compareOfLessAndEq_eq_lt.1 hlt)))
  · rintro (⟨t⟩ | ⟨hlt⟩)
    · rfl
    · exact compareOfLessAndEq_eq_lt.2 (String.lt_iff.2 (map_toNat_lt_iff.1 hlt))

theorem compareSegments_eq_eq {a b : Segment} : compareSegments a b = .eq ↔ a = b := by
  rw [compareSegments_eq_compare]
  exact Std.compare_eq_iff_eq

namespace Path

variable {p q r : Path} {a b : Segment} {as bs : List Segment}

/-! ## Lists of segments -/

theorem compareLists_eq_compare (as bs : List Segment) : compareLists as bs = compare as bs := by
  induction as generalizing bs with
  | nil => cases bs <;> rfl
  | cons a as ih =>
    cases bs with
    | nil => rfl
    | cons b bs =>
      rw [compareLists, compareSegments_eq_compare, ih, List.compare_cons_cons]

/-- A common beginning decides nothing. -/
theorem compareLists_append (cs as bs : List Segment) :
    compareLists (cs ++ as) (cs ++ bs) = compareLists as bs := by
  induction cs with
  | nil => rfl
  | cons c cs ih =>
    rw [List.cons_append, List.cons_append, compareLists, compareSegments_eq_eq.2 rfl, ih]
    rfl

theorem precedesList_cons_cons :
    PrecedesList (a :: as) (b :: bs) ↔ PrecedesSegment a b ∨ a = b ∧ PrecedesList as bs := by
  constructor
  · rintro (⟨i, x, y, htake, hx, hy, hxy⟩ | ⟨hbegin, hlength⟩)
    · cases i with
      | zero =>
        cases hx
        cases hy
        exact .inl hxy
      | succ i =>
        rw [List.take_succ_cons, List.take_succ_cons, List.cons.injEq] at htake
        exact .inr ⟨htake.1, .inl ⟨i, x, y, htake.2, hx, hy, hxy⟩⟩
    · obtain ⟨hab, hbegin⟩ := List.cons_prefix_cons.1 hbegin
      exact .inr ⟨hab, .inr ⟨hbegin, Nat.lt_of_succ_lt_succ hlength⟩⟩
  · rintro (hab | ⟨rfl, ⟨i, x, y, htake, hx, hy, hxy⟩ | ⟨hbegin, hlength⟩⟩)
    · exact .inl ⟨0, a, b, rfl, rfl, rfl, hab⟩
    · refine .inl ⟨i + 1, x, y, ?_, hx, hy, hxy⟩
      rw [List.take_succ_cons, List.take_succ_cons, htake]
    · exact .inr ⟨List.cons_prefix_cons.2 ⟨rfl, hbegin⟩, Nat.succ_lt_succ hlength⟩

/-- The comparison finds the first difference. -/
theorem compareLists_eq_lt : compareLists as bs = .lt ↔ PrecedesList as bs := by
  induction as generalizing bs with
  | nil =>
    cases bs with
    | nil => simp [compareLists, PrecedesList]
    | cons b bs =>
      exact iff_of_true rfl (.inr ⟨List.nil_prefix, Nat.zero_lt_succ _⟩)
  | cons a as ih =>
    cases bs with
    | nil => simp [compareLists, PrecedesList]
    | cons b bs =>
      rw [compareLists, Ordering.then_eq_lt, compareSegments_eq_lt, compareSegments_eq_eq, ih,
        precedesList_cons_cons]

/-! ## Paths -/

theorem order_eq_compare (p q : Path) : p.order q = compare p.segments q.segments :=
  compareLists_eq_compare _ _

theorem before_iff : p.before q = true ↔ compare p.segments q.segments = .lt := by
  rw [before, order_eq_compare, beq_iff_eq]

theorem before_iff_precedes : p.before q = true ↔ PrecedesList p.segments q.segments := by
  rw [before, order, beq_iff_eq, compareLists_eq_lt]

theorem before_iff_of_swap : q.before p = true ↔ compare p.segments q.segments = .gt := by
  rw [before_iff, Std.OrientedCmp.gt_iff_lt]

theorem beq_iff_compare : (p == q) = true ↔ compare p.segments q.segments = .eq := by
  rw [beq_iff, Std.compare_eq_iff_eq]

theorem before_trans (hpq : p.before q = true) (hqr : q.before r = true) : p.before r = true :=
  before_iff.2 (Std.TransCmp.lt_trans (before_iff.1 hpq) (before_iff.1 hqr))

/-- Of two paths one comes before the other, or they are equal, and only one of this. -/
theorem before_trichotomy (p q : Path) :
    p.before q = true ∧ (p == q) = false ∧ q.before p = false ∨
      p.before q = false ∧ (p == q) = true ∧ q.before p = false ∨
      p.before q = false ∧ (p == q) = false ∧ q.before p = true := by
  simp only [← Bool.not_eq_true, before_iff (p := p), before_iff_of_swap (p := p), beq_iff_compare]
  cases compare p.segments q.segments <;> simp

theorem before_append (p q r : Path) : (r.append p).before (r.append q) = p.before q := by
  rw [before, before, order, order, segments_append, segments_append, compareLists_append]

/-- Paths are totally ordered, whatever they were made from.  Exactly one of before, equal and after
holds of two paths; before is transitive; the other comparisons follow from it and from equality; it
is told by the first difference; and a path in front of both changes nothing. -/
theorem order_laws (p q r : Path) :
    (p.before q = true ∧ (p == q) = false ∧ q.before p = false ∨
      p.before q = false ∧ (p == q) = true ∧ q.before p = false ∨
      p.before q = false ∧ (p == q) = false ∧ q.before p = true) ∧
    (p.before q = true → q.before r = true → p.before r = true) ∧
    (p.beforeOrEqual q = true ↔ p.before q = true ∨ (p == q) = true) ∧
    (p.after q = true ↔ q.before p = true) ∧
    (p.afterOrEqual q = true ↔ q.before p = true ∨ (p == q) = true) ∧
    (p.before q = true ↔ PrecedesList p.segments q.segments) ∧
    (p.before q = true ↔ (r.append p).before (r.append q) = true) := by
  have hone := before_trichotomy p q
  refine ⟨hone, before_trans, ?_, ?_, ?_, before_iff_precedes, by rw [before_append]⟩
  · rw [beforeOrEqual, Bool.or_eq_true]
  · rw [after, Bool.and_eq_true, Bool.not_eq_true', bne, Bool.not_eq_true']
    rcases hone with ⟨hp, he, hq⟩ | ⟨hp, he, hq⟩ | ⟨hp, he, hq⟩ <;> simp [hp, he, hq]
  · rw [afterOrEqual, Bool.not_eq_true']
    rcases hone with ⟨hp, he, hq⟩ | ⟨hp, he, hq⟩ | ⟨hp, he, hq⟩ <;> simp [hp, he, hq]

/-- Null comes before the empty text, a segment before its continuation in another path, and a text
with a character beyond the sixteen-bit code points after all texts without one. -/
theorem order_laws_nullAndTexts :
    let p := ofSegments [some "a", none]
    let q := parse "a."
    let r := parse "a.￿"
    let s := ofSegments [some "a", some "😀"]
    p.before q = true ∧ q.before r = true ∧ p.before r = true ∧ r.before s = true ∧
      q.before s = true := by
  have hpq : (ofSegments [some "a", none]).before (parse "a.") = true := by decide +kernel
  have hqr : (parse "a.").before (parse "a.￿") = true := by decide +kernel
  have hrs : (parse "a.￿").before (ofSegments [some "a", some "😀"]) = true := by
    decide +kernel
  exact ⟨hpq, hqr, (order_laws _ _ _).2.1 hpq hqr, hrs, (order_laws _ _ _).2.1 hqr hrs⟩

end Path

end Dotpath

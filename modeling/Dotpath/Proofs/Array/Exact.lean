import Mathlib.Data.List.DropRight
import Dotpath.Proofs.Array.Integers

/-!
# What an element keeps of a value

Elements of integers, truth values, texts and bytes take what they have room for and refuse
everything else (`accepts_iff_keeps`).  `ElementType.Keeps` says what such an element then holds: the
integer or truth value as it is, but a text or bytes without the zeros at their end, for an element of
fixed size is filled up with zeros.  So a value comes back as it was exactly if it does not end in a
zero (`Keeps.eq_plain_iff`).
-/

namespace Dotpath

/-- Elements of fixed size keep a list of characters or bytes if it does not end in a zero. -/
theorem trimEnd_eq_self_iff {α : Type} [BEq α] [LawfulBEq α] {zero : α} {xs : List α} :
    ElementType.trimEnd zero xs = xs ↔ xs.getLast? ≠ some zero := by
  have htrim : ElementType.trimEnd zero xs = xs.rdropWhile (· == zero) := rfl
  rw [htrim, List.rdropWhile_eq_self_iff]
  by_cases hxs : xs = []
  · simp [hxs]
  · simp [hxs, List.getLast?_eq_some_getLast]

/-- Whether a text or bytes end in a zero. -/
def Scalar.EndsInZero : Scalar → Prop
  | .text x => x.toList.getLast? = some (Char.ofNat 0)
  | .bytes bs => bs.getLast? = some 0
  | _ => False

namespace ElementType

variable {t : ElementType} {v : Value} {s r : Scalar}

/-- Whether the elements are integers, truth values, texts or bytes. -/
def isExact (t : ElementType) : Bool :=
  match t.form with
  | .truth | .signed | .unsigned | .text | .bytes => true
  | _ => false

/-- What an element keeps of a value that it has room for. -/
inductive Keeps (t : ElementType) : Value → Scalar → Prop
  | integer {f : IntegerFormat} {s : Scalar} {n : Int} (ht : t.integers? = some f)
      (hs : s.plain = .int n) (hn : f.InRange n) : Keeps t (.scalar s) (.int n)
  | truth {s : Scalar} {b : Bool} (ht : t.form = .truth) (hs : s.plain = .bool b) :
      Keeps t (.scalar s) (.bool b)
  | text {s : Scalar} {x : String} (ht : t.form = .text) (hs : s.plain = .text x)
      (hx : x.length ≤ t.size) :
      Keeps t (.scalar s) (.text (String.ofList (trimEnd (Char.ofNat 0) x.toList)))
  | bytes {s : Scalar} {bs : List UInt8} (ht : t.form = .bytes) (hs : s.plain = .bytes bs)
      (hbs : bs.length ≤ t.size) : Keeps t (.scalar s) (.bytes (trimEnd 0 bs))

/-- An element of integers keeps what it holds. -/
theorem keeps_of_holds {f : IntegerFormat} {n : Int} (ht : t.integers? = some f)
    (hv : f.Holds v n) : t.Keeps v (.int n) := by
  obtain ⟨s, rfl⟩ := hv.1.exists_scalar
  exact .integer ht ((IntegerFormat.denotes_iff_plain (truths_of_integers? ht)).1 hv.1) hv.2

theorem Keeps.exists_scalar (hv : t.Keeps v r) : ∃ s, v = .scalar s := by
  cases hv with
  | integer | truth | text | bytes => exact ⟨_, rfl⟩

theorem Keeps.plain (hv : t.Keeps v r) : r.plain = r := by
  cases hv with
  | integer | truth | text | bytes => rfl

/-- A value comes back from an element as it was, unless it ends in a zero. -/
theorem Keeps.eq_plain_iff (hv : t.Keeps (.scalar s) r) : r = s.plain ↔ ¬ s.plain.EndsInZero := by
  cases hv with
  | integer ht hs | truth ht hs => simp [hs, Scalar.EndsInZero]
  | text ht hs =>
    rw [hs, Scalar.text.injEq, Scalar.EndsInZero, ← ne_eq, ← trimEnd_eq_self_iff,
      ← String.toList_inj, String.toList_ofList]
  | bytes ht hs => rw [hs, Scalar.bytes.injEq, Scalar.EndsInZero, ← ne_eq, ← trimEnd_eq_self_iff]

theorem exists_scalar_of_accepts (ht : t.isExact = true) (hv : t.accepts v = true) :
    ∃ s, v = .scalar s := by
  cases v with
  | scalar s => exact ⟨s, rfl⟩
  | _ =>
    unfold accepts at hv
    unfold isExact at ht
    cases hform : t.form <;> simp [hform] at hv ht

theorem Keeps.accepts (hv : t.Keeps v r) : t.accepts v = true := by
  cases hv with
  | integer ht hs hn => exact (accepts_scalar_iff ht _).2 ⟨_, hs, hn⟩
  | truth ht hs => simp [ElementType.accepts, ht, hs]
  | text ht hs hx => simp [ElementType.accepts, ht, hs, hx]
  | bytes ht hs hbs => simp [ElementType.accepts, ht, hs, hbs]

/-- An element takes the values of which it keeps something, and refuses all others. -/
theorem accepts_iff_keeps (ht : t.isExact = true) : t.accepts v = true ↔ ∃ r, t.Keeps v r := by
  refine ⟨fun hv => ?_, fun ⟨r, hr⟩ => hr.accepts⟩
  obtain ⟨s, rfl⟩ := exists_scalar_of_accepts ht hv
  unfold isExact at ht
  cases hform : t.form with
  | signed | unsigned =>
    obtain ⟨f, hf⟩ : ∃ f, t.integers? = some f := by simp [integers?, hform]
    obtain ⟨n, hn, hrange⟩ := (accepts_scalar_iff hf s).1 hv
    exact ⟨_, .integer hf hn hrange⟩
  | truth =>
    simp only [accepts, hform] at hv
    split at hv
    · next hs => exact ⟨_, .truth hform hs⟩
    · cases hv
  | text =>
    simp only [accepts, hform] at hv
    split at hv
    · next hs => exact ⟨_, .text hform hs (of_decide_eq_true hv)⟩
    · cases hv
  | bytes =>
    simp only [accepts, hform] at hv
    split at hv
    · next hs => exact ⟨_, .bytes hform hs (of_decide_eq_true hv)⟩
    · cases hv
  | _ =>
    rw [hform] at ht
    cases ht

/-- The cell of an array for a value holds what an element keeps of it. -/
theorem cell_of_keeps (hv : t.Keeps v r) : t.cell v = .ok (.scalar r) := by
  cases hv with
  | integer ht hs hn =>
    exact cell_of_holds ht ⟨(IntegerFormat.denotes_iff_plain (truths_of_integers? ht)).2 hs, hn⟩
  | truth ht hs | text ht hs | bytes ht hs => simp [cell, ht, hs]

end ElementType

end Dotpath

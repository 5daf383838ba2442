import Dotpath.Array.Plain

/-!
# Integers in arrays

An array of integers has elements of a fixed width, with a sign or without.  `IntegerFormat.Holds`
says which values an element can hold, and as which integer.  The checks on the way into an array
come to the same: what an element holds goes in as the integer that it stands for
(`accepts_iff_holds` and `cell_of_holds`, `plainCell_eq_ok_iff`, `byteCell_eq_ok_iff`), and no other
value does.
-/

namespace Dotpath

/-- The integers of an array: with a sign or without, and of so many bytes; and whether a truth
value counts as one. -/
structure IntegerFormat where
  signed : Bool
  width : Nat
  truths : Bool

namespace IntegerFormat

variable {f : IntegerFormat} {v : Value} {m n : Int}

/-- Whether a value stands for an integer. -/
inductive Denotes (f : IntegerFormat) : Value → Int → Prop
  | int (n : Int) : Denotes f (.scalar (.int n)) n
  | machine (type : String) (n : Int) : Denotes f (.scalar (.machine type (.int n))) n
  | truth (b : Bool) (hf : f.truths = true) : Denotes f (.scalar (.bool b)) (if b then 1 else 0)

/-- Whether an integer has room in an element. -/
def InRange (f : IntegerFormat) (n : Int) : Prop :=
  if f.signed then -twoTo (8 * f.width - 1) ≤ n ∧ n < twoTo (8 * f.width - 1)
  else 0 ≤ n ∧ n < twoTo (8 * f.width)

instance : Decidable (f.InRange n) :=
  inferInstanceAs (Decidable (if f.signed then
    -twoTo (8 * f.width - 1) ≤ n ∧ n < twoTo (8 * f.width - 1)
    else 0 ≤ n ∧ n < twoTo (8 * f.width)))

/-- Whether an element holds a value, as an integer. -/
def Holds (f : IntegerFormat) (v : Value) (n : Int) : Prop := f.Denotes v n ∧ f.InRange n

theorem Denotes.unique (hm : f.Denotes v m) (hn : f.Denotes v n) : m = n := by
  cases hm with
  | int | machine | truth =>
    cases hn
    rfl

theorem Denotes.exists_scalar (hn : f.Denotes v n) : ∃ s, v = .scalar s := by
  cases hn <;> exact ⟨_, rfl⟩

theorem denotes_iff_plain (hf : f.truths = false) {s : Scalar} :
    f.Denotes (.scalar s) n ↔ s.plain = .int n := by
  constructor
  · rintro (- | - | ⟨-, htruths⟩)
    · rfl
    · rfl
    · rw [hf] at htruths
      cases htruths
  · intro hs
    cases s with
    | int m =>
      cases hs
      exact .int n
    | machine type s =>
      cases hs
      exact .machine type n
    | _ => cases hs

theorem denotes_iff_index? (hf : f.truths = true) {s : Scalar} :
    f.Denotes (.scalar s) n ↔ s.index? = some n := by
  constructor
  · rintro (- | - | -) <;> rfl
  · intro hs
    unfold Scalar.index? at hs
    split at hs
    · cases hs
      exact .int n
    · cases hs
      exact .machine _ n
    · cases hs
      exact .truth _ hf
    · cases hs

theorem exists_holds_iff (hf : f.truths = true) {s : Scalar} (hs : s.index? = some n)
    {P : Int → Prop} : (∃ m, f.Holds (.scalar s) m ∧ P m) ↔ f.InRange n ∧ P n := by
  constructor
  · rintro ⟨m, ⟨hm, hrange⟩, hP⟩
    obtain rfl : m = n := hm.unique ((denotes_iff_index? hf).2 hs)
    exact ⟨hrange, hP⟩
  · rintro ⟨hrange, hP⟩
    exact ⟨n, ⟨(denotes_iff_index? hf).2 hs, hrange⟩, hP⟩

theorem not_exists_holds_of_index? (hf : f.truths = true) {s : Scalar} (hs : s.index? = none)
    {P : Int → Prop} : ¬ ∃ n, f.Holds (.scalar s) n ∧ P n := by
  rintro ⟨n, ⟨hn, -⟩, -⟩
  rw [denotes_iff_index? hf, hs] at hn
  cases hn

theorem not_exists_holds (hv : ∀ s, v ≠ .scalar s) {P : Int → Prop} :
    ¬ ∃ n, f.Holds v n ∧ P n := by
  rintro ⟨n, ⟨hn, -⟩, -⟩
  obtain ⟨s, hs⟩ := hn.exists_scalar
  exact hv s hs

theorem inRange_iff : f.InRange n ↔
    (ElementType.integerBounds f.signed f.width).1 ≤ n ∧
      n ≤ (ElementType.integerBounds f.signed f.width).2 := by
  unfold InRange ElementType.integerBounds
  split <;> rw [Int.le_sub_one_iff]

end IntegerFormat

/-! ## Arrays of fixed-size elements -/

namespace ElementType

variable {t : ElementType} {f : IntegerFormat} {v : Value} {n : Int}

/-- The integers of an element type.  Truth values are elements of another type. -/
def integers? (t : ElementType) : Option IntegerFormat :=
  match t.form with
  | .signed => some ⟨true, t.size, false⟩
  | .unsigned => some ⟨false, t.size, false⟩
  | _ => none

theorem form_of_integers? (ht : t.integers? = some f) :
    (t.form = .signed ∧ f = ⟨true, t.size, false⟩) ∨
      t.form = .unsigned ∧ f = ⟨false, t.size, false⟩ := by
  unfold integers? at ht
  split at ht
  · next hform => exact .inl ⟨hform, (Option.some.inj ht).symm⟩
  · next hform => exact .inr ⟨hform, (Option.some.inj ht).symm⟩
  · cases ht

theorem truths_of_integers? (ht : t.integers? = some f) : f.truths = false := by
  rcases form_of_integers? ht with ⟨-, rfl⟩ | ⟨-, rfl⟩ <;> rfl

theorem accepts_scalar_iff (ht : t.integers? = some f) (s : Scalar) :
    t.accepts (.scalar s) = true ↔ ∃ n, s.plain = .int n ∧ f.InRange n := by
  rcases form_of_integers? ht with ⟨hform, rfl⟩ | ⟨hform, rfl⟩
  all_goals
    unfold accepts
    rw [hform]
    dsimp only
    split
    · next n hn =>
      rw [hn, Bool.and_eq_true, decide_eq_true_eq, decide_eq_true_eq]
      constructor
      · intro hbounds
        exact ⟨n, rfl, IntegerFormat.inRange_iff.2 hbounds⟩
      · rintro ⟨m, ⟨⟩, hm⟩
        exact IntegerFormat.inRange_iff.1 hm
    · next hnone =>
      refine iff_of_false Bool.false_ne_true ?_
      rintro ⟨n, hn, -⟩
      exact hnone n hn

/-- An element type of integers accepts the values that its elements hold. -/
theorem accepts_iff_holds (ht : t.integers? = some f) :
    t.accepts v = true ↔ ∃ n, f.Holds v n := by
  have hf := truths_of_integers? ht
  cases v with
  | scalar s =>
    rw [accepts_scalar_iff ht]
    exact exists_congr fun n => and_congr_left' (IntegerFormat.denotes_iff_plain hf).symm
  | _ =>
    refine iff_of_false (fun hv => ?_) ?_
    · unfold accepts at hv
      rcases form_of_integers? ht with ⟨hform, -⟩ | ⟨hform, -⟩ <;> rw [hform] at hv <;> cases hv
    · rintro ⟨n, hn, -⟩
      obtain ⟨s, ⟨⟩⟩ := hn.exists_scalar

theorem cell_of_holds (ht : t.integers? = some f) (hv : f.Holds v n) :
    t.cell v = .ok (.scalar (.int n)) := by
  have hf := truths_of_integers? ht
  obtain ⟨s, rfl⟩ := hv.1.exists_scalar
  have hs := (IntegerFormat.denotes_iff_plain hf).1 hv.1
  unfold cell
  rcases form_of_integers? ht with ⟨hform, -⟩ | ⟨hform, -⟩
  all_goals
    rw [hform]
    dsimp only
    rw [hs]

end ElementType

/-! ## Plain arrays -/

/-- The integers of the plain array with a code. -/
def plainIntegers? : Char → Option IntegerFormat
  | 'b' => some ⟨true, 1, true⟩
  | 'B' => some ⟨false, 1, true⟩
  | 'h' => some ⟨true, 2, true⟩
  | 'H' => some ⟨false, 2, true⟩
  | 'i' => some ⟨true, 4, true⟩
  | 'I' => some ⟨false, 4, true⟩
  | 'l' | 'q' => some ⟨true, 8, true⟩
  | 'L' | 'Q' => some ⟨false, 8, true⟩
  | _ => none

/-- The integers of an array of bytes. -/
def byteIntegers : IntegerFormat := ⟨false, 1, true⟩

section Plain

variable {code : Char} {f : IntegerFormat} {v : Value} {n : Int}

theorem codeElement_of_plainIntegers? (hcode : plainIntegers? code = some f) :
    codeElement code = (if f.signed then .signed else .unsigned, f.width) ∧ f.truths = true := by
  unfold plainIntegers? at hcode
  split at hcode
  all_goals
    cases hcode
    try exact ⟨rfl, rfl⟩

/-- An item of a plain array of integers is made of the values that it holds, and of no others. -/
theorem plainCell_eq_ok_iff (hcode : plainIntegers? code = some f) (type : String) {x : Scalar} :
    plainCell code type v = .ok x ↔ ∃ n, f.Holds v n ∧ x = .int n := by
  obtain ⟨helement, hf⟩ := codeElement_of_plainIntegers? hcode
  have hsigned : ((if f.signed then ElementForm.signed else .unsigned) == .signed) = f.signed := by
    cases f.signed <;> rfl
  cases v with
  | scalar s =>
    have hcell : plainCell code type (.scalar s) = integerItem code type s := by
      unfold plainCell
      rw [helement]
      cases f.signed <;> rfl
    rw [hcell, integerItem, helement]
    dsimp only
    rw [hsigned]
    cases hs : s.index? with
    | none =>
      exact iff_of_false (by rintro ⟨⟩) (IntegerFormat.not_exists_holds_of_index? hf hs)
    | some n =>
      rw [IntegerFormat.exists_holds_iff hf hs]
      dsimp only
      by_cases hrange : f.InRange n
      · rw [if_pos (IntegerFormat.inRange_iff.1 hrange)]
        simp [hrange, eq_comm]
      · rw [if_neg (mt IntegerFormat.inRange_iff.2 hrange)]
        simp [hrange]
  | _ =>
    refine iff_of_false (fun hx => ?_) (IntegerFormat.not_exists_holds (by rintro s ⟨⟩))
    unfold plainCell at hx
    rw [helement] at hx
    cases hs : f.signed <;> rw [hs] at hx <;> cases hx

theorem inRange_byteIntegers : byteIntegers.InRange n ↔ 0 ≤ n ∧ n ≤ 255 := by
  rw [IntegerFormat.inRange_iff]
  rfl

theorem byteValue_toUInt8 (hn : byteIntegers.InRange n) :
    byteValue n.toNat.toUInt8 = .scalar (.int n) := by
  obtain ⟨hlow, hhigh⟩ := inRange_byteIntegers.1 hn
  have hsmall : n.toNat.toUInt8.toNat = n.toNat :=
    UInt8.toNat_ofNat_of_lt' (Nat.lt_of_le_of_lt (by omega : _ ≤ 255) (by decide))
  rw [byteValue, hsmall, Int.toNat_of_nonneg hlow]

theorem byteValue_inj {b b' : UInt8} : byteValue b = byteValue b' ↔ b = b' := by
  rw [byteValue, byteValue, Value.scalar.injEq, Scalar.int.injEq, Int.natCast_inj,
    UInt8.toNat_inj]

/-- A byte is made of the values that it holds, and of no other ones. -/
theorem byteCell_eq_ok_iff (type : String) {b : UInt8} :
    byteCell type v = .ok b ↔ ∃ n, byteIntegers.Holds v n ∧ byteValue b = .scalar (.int n) := by
  cases v with
  | scalar s =>
    rw [byteCell]
    cases hs : s.index? with
    | none =>
      exact iff_of_false (by rintro ⟨⟩) (IntegerFormat.not_exists_holds_of_index? rfl hs)
    | some n =>
      rw [IntegerFormat.exists_holds_iff rfl hs]
      dsimp only
      by_cases hrange : byteIntegers.InRange n
      · rw [if_pos (inRange_byteIntegers.1 hrange), and_iff_right hrange,
          ← byteValue_toUInt8 hrange, byteValue_inj, Except.ok.injEq, eq_comm]
      · rw [if_neg (mt inRange_byteIntegers.2 hrange)]
        simp [hrange]
  | _ => exact iff_of_false (by rintro ⟨⟩) (IntegerFormat.not_exists_holds (by rintro s ⟨⟩))

end Plain

end Dotpath

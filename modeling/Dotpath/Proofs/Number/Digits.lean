import Dotpath.Path.Basic
import Dotpath.Scalar.Reading
import Dotpath.Walk.Reading

/-!
# Rows of ASCII digits

What is made of a segment of ASCII digits: an index (`parseIndex`), or, with a minus sign perhaps, an
integer (`parseInteger`).  Nothing but the number of digits can keep such a segment from being read.
-/

namespace Dotpath

/-- Whether a text consists of ASCII digits. -/
def IsDigitRow (ds : List Char) : Prop := ∀ c ∈ ds, Text.isDigit c = true

theorem isDigitRow_iff {ds : List Char} : IsDigitRow ds ↔ ds.all Text.isDigit = true :=
  List.all_eq_true.symm

theorem IsDigitRow.tail {c : Char} {ds : List Char} (h : IsDigitRow (c :: ds)) : IsDigitRow ds :=
  fun d hd => h d (List.mem_cons_of_mem c hd)

theorem toNat_of_isDigit {c : Char} (hc : Text.isDigit c = true) : 48 ≤ c.toNat ∧ c.toNat ≤ 57 := by
  simp only [Text.isDigit, Bool.and_eq_true, decide_eq_true_eq] at hc
  exact hc

/-! ## Written numbers -/

theorem digitsValue_eq_ofDigitChars (ds : List Char) :
    Text.digitsValue ds = Nat.ofDigitChars 10 ds 0 :=
  Nat.ofDigitChars_eq_foldl.symm

theorem toList_toString (n : Nat) : (toString n).toList = Nat.toDigits 10 n := Nat.toList_repr

theorem isDigitRow_toString (n : Nat) : IsDigitRow (toString n).toList := by
  intro c hc
  rw [toList_toString] at hc
  have hdigit : c.isDigit = true := Nat.isDigit_of_mem_toDigits (by decide) (by decide) hc
  rw [Char.isDigit_iff_toNat] at hdigit
  exact Bool.and_eq_true_iff.2 ⟨decide_eq_true hdigit.1, decide_eq_true hdigit.2⟩

/-- A written number has its value. -/
theorem digitsValue_toString (n : Nat) : Text.digitsValue (toString n).toList = n := by
  rw [digitsValue_eq_ofDigitChars, toList_toString, Nat.ofDigitChars_ten_toDigits]

/-! ## Indices -/

/-- Reading an index faults exactly for a row of too many digits. -/
theorem parseIndex_eq_error {s : Segment} {f : Fault} :
    parseIndex s = .error f ↔ ∃ t, s = some t ∧ IsDigitRow t.toList ∧
      maxDigits < t.toList.length ∧ f = .tooManyDigits t.toList.length := by
  cases s with
  | none => simp [parseIndex]
  | some t =>
    simp only [parseIndex, Option.some.injEq, exists_eq_left', isDigitRow_iff]
    constructor
    · intro h
      split at h
      · cases h
      · next hrow =>
        rw [Bool.or_eq_true, not_or, Bool.not_eq_true', Bool.not_eq_false] at hrow
        split at h
        · next hlong => exact ⟨hrow.2, hlong, (Except.error.inj h).symm⟩
        · cases h
    · rintro ⟨hrow, hlong, rfl⟩
      have hne : t.toList.isEmpty = false :=
        List.isEmpty_eq_false_iff.2 (List.ne_nil_of_length_pos (Nat.zero_lt_of_lt hlong))
      rw [hne, hrow, if_neg (by decide), if_pos hlong]

/-! ## Integers -/

theorem asciiDigits_of_lt {cs : List Char} (h : ∀ c ∈ cs, c.toNat < 128) : asciiDigits cs = cs := by
  rw [asciiDigits]
  refine (List.map_congr_left fun c hc => ?_).trans (List.map_id cs)
  rw [if_pos (h c hc), id]

theorem stripAscii_of_le {cs : List Char} (h : ∀ c ∈ cs, 33 ≤ c.toNat) : stripAscii cs = cs := by
  have hkeep {l : List Char} (hl : ∀ c ∈ l, 33 ≤ c.toNat) :
      l.dropWhile (fun c => c == ' ' || (9 ≤ c.toNat && c.toNat ≤ 13)) = l := by
    cases l with
    | nil => rfl
    | cons c l =>
      have hc := hl c List.mem_cons_self
      have hspace : c ≠ ' ' := by
        rintro rfl
        exact absurd hc (by decide)
      refine List.dropWhile_cons_of_neg ?_
      simp only [Bool.or_eq_true, beq_iff_eq, Bool.and_eq_true, decide_eq_true_eq, not_or]
      exact ⟨hspace, by omega⟩
  rw [stripAscii, hkeep h, hkeep (fun c hc => h c (List.mem_reverse.1 hc)), List.reverse_reverse]

theorem splitDigitRow_of_isDigitRow {ds : List Char} (h : IsDigitRow ds) :
    splitDigitRow ds = (ds, [], true) := by
  induction ds with
  | nil => rw [splitDigitRow]
  | cons c ds ih =>
    have hc := h c List.mem_cons_self
    have hunder : ∀ rest, ds ≠ '_' :: rest := by
      rintro rest rfl
      exact absurd (h '_' (List.mem_cons_of_mem c List.mem_cons_self)) (by decide)
    rw [splitDigitRow, if_pos hc, ih h.tail]
    · exact fun d rest hds => hunder _ hds
    · exact hunder _

/-- What looks like an integer is a row of digits, after a minus sign perhaps. -/
theorem isIntegerSegment_iff {t : String} :
    isIntegerSegment (some t) = true ↔
      ∃ ds, (t.toList = ds ∨ t.toList = '-' :: ds) ∧ IsDigitRow ds ∧ ds ≠ [] := by
  have hrow {ds : List Char} :
      (!ds.isEmpty && ds.all fun c => '0' ≤ c && c ≤ '9') = true ↔ IsDigitRow ds ∧ ds ≠ [] := by
    rw [Bool.and_eq_true, Bool.not_eq_true', List.isEmpty_eq_false_iff, and_comm]
    exact and_congr_left' isDigitRow_iff.symm
  rw [isIntegerSegment, Option.map_some]
  split
  · next h => cases h
  · next cs h =>
    rw [Option.some.inj h, hrow]
    constructor
    · rintro ⟨hdigits, hne⟩
      exact ⟨cs, .inr rfl, hdigits, hne⟩
    · rintro ⟨ds, rfl | hds, hdigits, hne⟩
      · exact absurd (hdigits '-' List.mem_cons_self) (by decide)
      · obtain rfl := (List.cons.inj hds).2
        exact ⟨hdigits, hne⟩
  · next cs hminus h =>
    obtain rfl := Option.some.inj h
    rw [hrow]
    constructor
    · rintro ⟨hdigits, hne⟩
      exact ⟨t.toList, .inl rfl, hdigits, hne⟩
    · rintro ⟨ds, rfl | hds, hdigits, hne⟩
      · exact ⟨hdigits, hne⟩
      · exact absurd hds (hminus ds)

end Dotpath

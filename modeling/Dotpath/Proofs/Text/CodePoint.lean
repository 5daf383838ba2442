import Dotpath.Text.Quoted
import Mathlib.Data.List.Basic

/-!
# Code points

Every character has a code point, and every code point a character (`ofCodePoint_codePoint`,
`codePoint_ofCodePoint`), except those that stand for halves of surrogate pairs themselves.  A
character beyond the first 65536 can be split into two halves (`Text.halves`), which is what is left
of it where each is written on its own.
-/

namespace Dotpath.Text

theorem toNat_ofNat {n : Nat} (hn : n.isValidChar) : (Char.ofNat n).toNat = n := by
  rw [Char.ofNat, dif_pos hn]
  rfl

theorem isHalf_iff {n : Nat} : isHalf n = true ↔ 0xd800 ≤ n ∧ n < 0xe000 := by
  rw [isHalf, Bool.and_eq_true, decide_eq_true_eq, decide_eq_true_eq]

theorem isHalf_eq_false_iff {n : Nat} : isHalf n = false ↔ n < 0xd800 ∨ 0xe000 ≤ n := by
  rw [← Bool.not_eq_true, isHalf_iff]
  omega

/-- No character is a half itself. -/
theorem isHalf_toNat (c : Char) : isHalf c.toNat = false := by
  have hc : c.toNat < 0xd800 ∨ 0xdfff < c.toNat ∧ c.toNat < 0x110000 := c.valid
  exact isHalf_eq_false_iff.2 (by omega)

theorem codePoint_of_lt {c : Char} (hc : c.toNat < 0x10d800) : codePoint c = c.toNat := by
  rw [codePoint, isHalf_eq_false_iff.2 (by rw [halfShift]; omega), if_neg Bool.false_ne_true]

theorem codePoint_lt (c : Char) : codePoint c < 0x110000 := by
  have hc : c.toNat < 0xd800 ∨ 0xdfff < c.toNat ∧ c.toNat < 0x110000 := c.valid
  rw [codePoint]
  split
  · exact Nat.lt_of_le_of_lt (Nat.sub_le _ _) (by omega)
  · omega

/-- A character is told from others by its code point. -/
theorem ofCodePoint_codePoint (c : Char) : ofCodePoint (codePoint c) = c := by
  rw [ofCodePoint, codePoint]
  cases hhalf : isHalf (c.toNat - halfShift) with
  | false => rw [if_neg Bool.false_ne_true, isHalf_toNat, if_neg Bool.false_ne_true, Char.ofNat_toNat]
  | true =>
    have hshift : halfShift ≤ c.toNat := by
      rw [isHalf_iff] at hhalf
      omega
    rw [if_pos rfl, hhalf, if_pos rfl, Nat.sub_add_cancel hshift, Char.ofNat_toNat]

theorem codePoint_ofCodePoint {n : Nat} (hn : n < 0x10d800) : codePoint (ofCodePoint n) = n := by
  rw [ofCodePoint]
  cases hhalf : isHalf n with
  | false =>
    rw [isHalf_eq_false_iff] at hhalf
    have hvalid : (Char.ofNat n).toNat = n := toNat_ofNat (by rw [Nat.isValidChar]; omega)
    rw [if_neg Bool.false_ne_true, codePoint_of_lt (by rwa [hvalid]), hvalid]
  | true =>
    have hvalid : (Char.ofNat (n + halfShift)).toNat = n + halfShift := toNat_ofNat (by
      rw [isHalf_iff] at hhalf
      rw [Nat.isValidChar, halfShift]
      omega)
    rw [if_pos rfl, codePoint, hvalid, Nat.add_sub_cancel, hhalf, if_pos rfl]

/-- The characters of the 16-bit units of a character, of which there are two if it is beyond the
first 65536. -/
def charHalves (c : Char) : List Char :=
  let n := codePoint c
  if n < 0x10000 then [c]
  else [ofCodePoint (0xd800 + (n - 0x10000) / 0x400), ofCodePoint (0xdc00 + (n - 0x10000) % 0x400)]

/-- A text where the characters beyond the first 65536 are split into halves. -/
def halves (s : String) : String := String.ofList (s.toList.flatMap charHalves)

theorem charHalves_of_lt {c : Char} (hc : codePoint c < 0x10000) : charHalves c = [c] := by
  rw [charHalves, if_pos hc]

/-- A text without such characters stays as it is. -/
theorem halves_of_lt {s : String} (hs : ∀ c ∈ s.toList, codePoint c < 0x10000) : halves s = s := by
  have hchars : s.toList.flatMap charHalves = s.toList.flatMap fun c => [c] :=
    List.flatMap_congr fun c hc => charHalves_of_lt (hs c hc)
  rw [halves, hchars, List.flatMap_singleton', String.ofList_toList]

theorem codePoint_lt_of_mem_charHalves {c d : Char} (hd : d ∈ charHalves c) :
    codePoint d < 0x10000 := by
  have hc := codePoint_lt c
  rw [charHalves] at hd
  split at hd
  · next h => rwa [List.mem_singleton.1 hd]
  · have hhigh : codePoint (ofCodePoint (0xd800 + (codePoint c - 0x10000) / 0x400)) =
        0xd800 + (codePoint c - 0x10000) / 0x400 := codePoint_ofCodePoint (by omega)
    have hlow : codePoint (ofCodePoint (0xdc00 + (codePoint c - 0x10000) % 0x400)) =
        0xdc00 + (codePoint c - 0x10000) % 0x400 := codePoint_ofCodePoint (by omega)
    rw [List.mem_pair] at hd
    obtain hd | hd := hd <;> rw [hd] <;> omega

theorem codePoint_lt_of_mem_halves {s : String} {u : Char} (hu : u ∈ (halves s).toList) :
    codePoint u < 0x10000 := by
  rw [halves, String.toList_ofList] at hu
  obtain ⟨c, -, hu⟩ := List.mem_flatMap.1 hu
  exact codePoint_lt_of_mem_charHalves hu

end Dotpath.Text

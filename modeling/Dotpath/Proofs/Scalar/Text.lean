import Mathlib
import Dotpath.Scalar.Text

/-!
# Integers that can be shown

An integer has a text unless it has more than `maxDigits` digits.
-/

namespace Dotpath

theorem integerText?_eq_none_iff {n : Int} :
    integerText? n = none ↔ 10 ^ maxDigits ≤ n.natAbs := by
  have hlength : (toString n.natAbs).length ≤ maxDigits ↔ n.natAbs < 10 ^ maxDigits :=
    Nat.length_repr_le_iff (by decide)
  rw [integerText?, ← Nat.not_lt, ← hlength]
  split
  · next hlong => simpa using hlong
  · next hshort => simpa using hshort

/-- The least natural number without a text. -/
def leastUnprintable : Int := 10 ^ maxDigits

theorem integerText?_leastUnprintable : integerText? leastUnprintable = none := by
  have habs (k : Nat) : ((10 : Int) ^ k).natAbs = 10 ^ k := Int.natAbs_pow 10 k
  exact integerText?_eq_none_iff.2 (Nat.le_of_eq (habs maxDigits).symm)

end Dotpath

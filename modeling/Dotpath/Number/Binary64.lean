/-!
# Binary floating point

Numbers of the 64-bit binary format, kept as their bit pattern so that equality is identity of
patterns and every operation is exact arithmetic on integers.  `roundRatio` rounds a quotient to
the nearest number of a binary format, ties to the even significand, and is the only place where
precision is lost.
-/

namespace Dotpath

/-- A power of two. -/
abbrev twoTo (n : Nat) : Nat := Nat.pow 2 n

/-- A power of ten. -/
abbrev tenTo (n : Nat) : Nat := Nat.pow 10 n

/-- A number of the 64-bit binary format. -/
structure Binary64 where
  bits : UInt64
  deriving DecidableEq, Repr, Inhabited

/-- A binary format: digits of the significand, and the exponents of the unit in the last place. -/
structure BinaryFormat where
  precision : Nat
  minExponent : Int
  maxExponent : Int

/-- Sixty-four bits: 53 digits, units from `2 ^ -1074` to `2 ^ 971`. -/
def BinaryFormat.double : BinaryFormat := ⟨53, -1074, 971⟩

/-- Thirty-two bits: 24 digits, units from `2 ^ -149` to `2 ^ 104`. -/
def BinaryFormat.single : BinaryFormat := ⟨24, -149, 104⟩

/-- Sixteen bits: 11 digits, units from `2 ^ -24` to `2 ^ 5`. -/
def BinaryFormat.half : BinaryFormat := ⟨11, -24, 5⟩

/-- What a number stands for: a signed multiple of a power of two, an infinity, or no number. -/
inductive Magnitude where
  | finite (negative : Bool) (significand : Nat) (exponent : Int)
  | infinite (negative : Bool)
  | undefined
  deriving DecidableEq, Repr

/-- The quotient `num / den` rounded to an integer, halves to the even neighbour. -/
def divNearest (num den : Nat) : Nat :=
  let q := num / den
  let twice := 2 * (num % den)
  if twice > den ∨ (twice = den ∧ q % 2 = 1) then q + 1 else q

/-- The quotient `num / den` as `significand * 2 ^ exponent` rounded to the format, or `none` if it
is beyond the largest number of the format. -/
def roundRatio (f : BinaryFormat) (num den : Nat) : Option (Nat × Int) :=
  if num = 0 then some (0, f.minExponent)
  else
    let scaled (e : Int) : Nat × Nat :=
      if e ≥ 0 then (num, den * twoTo e.toNat) else (num * twoTo (-e).toNat, den)
    let guess : Int := (num.log2 : Int) - den.log2 - f.precision
    let fits (e : Int) : Bool :=
      let (n, d) := scaled e
      n < d * twoTo f.precision
    let least := if fits guess then guess else if fits (guess + 1) then guess + 1 else guess + 2
    let e := max least f.minExponent
    let (n, d) := scaled e
    let q := divNearest n d
    let (q, e) := if q = twoTo f.precision then (twoTo (f.precision - 1), e + 1) else (q, e)
    if e > f.maxExponent then none else some (q, e)

namespace Binary64

/-- The bit pattern for a significand and exponent in the range of the format. -/
def pack (negative : Bool) (significand : Nat) (exponent : Int) : Binary64 :=
  let body := (exponent + 1074).toNat * twoTo 52 + significand
  ⟨UInt64.ofNat (body + if negative then twoTo 63 else 0)⟩

/-- Positive or negative infinity. -/
def infinity (negative : Bool) : Binary64 :=
  ⟨UInt64.ofNat (0x7ff * twoTo 52 + if negative then twoTo 63 else 0)⟩

/-- The undefined number. -/
def nan : Binary64 := ⟨0x7ff8000000000000⟩

/-- What the bit pattern stands for. -/
def magnitude (x : Binary64) : Magnitude :=
  let n := x.bits.toNat
  let negative := n / twoTo 63 == 1
  let field : Nat := n / twoTo 52 % twoTo 11
  let fraction : Nat := n % twoTo 52
  if field = 0x7ff then
    if fraction = 0 then .infinite negative else .undefined
  else if field = 0 then .finite negative fraction (-1074)
  else .finite negative (twoTo 52 + fraction) ((field : Int) - 1075)

/-- Whether the number is undefined. -/
def isNaN (x : Binary64) : Bool := x.magnitude == .undefined

/-- The nearest number to a signed quotient; beyond the largest number it is an infinity. -/
def ofRatio (negative : Bool) (num den : Nat) : Binary64 :=
  match roundRatio .double num den with
  | some (q, e) => pack negative q e
  | none => infinity negative

/-- The nearest number to an integer, unless it is beyond the largest number. -/
def ofInt? (n : Int) : Option Binary64 :=
  (roundRatio .double n.natAbs 1).map fun (q, e) => pack (n < 0) q e

/-- The nearest number to `± digits * 10 ^ exponent`. -/
def ofDecimal (negative : Bool) (digits : Nat) (exponent : Int) : Binary64 :=
  if digits = 0 then pack negative 0 (-1074)
  else if exponent > 400 then infinity negative
  else if exponent ≥ 0 then ofRatio negative (digits * tenTo exponent.toNat) 1
  else if (Nat.toDigits 10 digits).length + exponent < -400 then pack negative 0 (-1074)
  else ofRatio negative digits (tenTo (-exponent).toNat)

/-- The number rounded to a narrower format and widened again. -/
def narrow (f : BinaryFormat) (x : Binary64) : Binary64 :=
  match x.magnitude with
  | .finite negative m e =>
    let (num, den) := if e ≥ 0 then (m * twoTo e.toNat, 1) else (m, twoTo (-e).toNat)
    match roundRatio f num den with
    | some (q, e') =>
      if e' ≥ 0 then ofRatio negative (q * twoTo e'.toNat) 1
      else ofRatio negative q (twoTo (-e').toNat)
    | none => infinity negative
  | .infinite negative => infinity negative
  | .undefined => x

/-- The signed quotient that a finite number is equal to. -/
def ratio? (x : Binary64) : Option (Int × Nat) :=
  match x.magnitude with
  | .finite negative m e =>
    let s : Int := if negative then -1 else 1
    if e ≥ 0 then some (s * (m * twoTo e.toNat : Nat), 1) else some (s * m, twoTo (-e).toNat)
  | _ => none

/-- The same number with the other sign. -/
def neg (x : Binary64) : Binary64 := ⟨x.bits ^^^ 0x8000000000000000⟩

/-- Whether the sign bit is set. -/
def isNegative (x : Binary64) : Bool := x.bits.toNat / twoTo 63 == 1

/-- Zero. -/
def zero : Binary64 := ⟨0⟩

end Binary64

end Dotpath

import Dotpath.Number.Binary64

/-!
# Shortest decimal text

The decimal text of a floating-point number: the fewest digits that read back as the same number,
and of those the nearest to it.  `ShortestFormat` holds what the text looks like around the digits.
-/

namespace Dotpath

/-- Whether `num / den` lies among the quotients that round to `m * 2 ^ e` (times a common
power of two: all three are scaled to the grid of quarter units). -/
structure RoundingInterval where
  /-- Four times the lower end, the number and the upper end, in units of `2 ^ (e - 2)`. -/
  low : Nat
  mid : Nat
  high : Nat
  /-- The ends belong to the interval when the significand is even. -/
  closed : Bool
  exponent : Int

/-- The quotients that round to `m * 2 ^ e` in a format; below the least significand of its
exponent the interval reaches only half as far. -/
def RoundingInterval.around (f : BinaryFormat) (m : Nat) (e : Int) : RoundingInterval :=
  { low := if m = twoTo (f.precision - 1) ∧ e > f.minExponent then 4 * m - 1 else 4 * m - 2
    mid := 4 * m
    high := 4 * m + 2
    closed := m % 2 = 0
    exponent := e - 2 }

/-- The decimal grid point `d * 10 ^ k` and the interval's unit `2 ^ exponent`, brought to one
scale: the factors of the grid point and of the interval's numbers. -/
def RoundingInterval.scales (i : RoundingInterval) (k : Int) : Nat × Nat :=
  let tens := tenTo k.natAbs
  let twos := twoTo i.exponent.natAbs
  let (g, u) := if k ≥ 0 then (tens, 1) else (1, tens)
  if i.exponent ≥ 0 then (g, u * twos) else (g * twos, u)

/-- The grid point of step `10 ^ k` in the interval that is nearest to the number, if there is
one; of two equally near the even one. -/
def RoundingInterval.gridPoint? (i : RoundingInterval) (k : Int) : Option Nat :=
  let (g, u) := i.scales k
  let lo := i.low * u
  let mid := i.mid * u
  let hi := i.high * u
  let inside (d : Nat) : Bool :=
    if i.closed then lo ≤ d * g && d * g ≤ hi else lo < d * g && d * g < hi
  let below := mid / g
  let above := below + 1
  let nearer := (divNearest mid g)
  let other := if nearer = below then above else below
  if inside nearer then some nearer else if inside other then some other else none

/-- The fewest digits and the exponent of the last one, for a positive number. -/
def shortestDigits (f : BinaryFormat) (m : Nat) (e : Int) : Nat × Int :=
  let i := RoundingInterval.around f m e
  -- an exponent of ten that is at least that of the leading digit
  let top : Int := ((m.log2 : Int) + e) * 30103 / 100000 + 1
  let steps : List Int := (List.range 19).map fun n : Nat => top - n
  match steps.findSome? fun k => (i.gridPoint? k).bind fun d => if d = 0 then none else some (d, k) with
  | some (d, k) => (d, k)
  | none => (m, e)

/-- The digits without trailing zeros. -/
def trimZeros (d : Nat) (k : Int) : (fuel : Nat) → Nat × Int
  | 0 => (d, k)
  | fuel + 1 => if d ≠ 0 ∧ d % 10 = 0 then trimZeros (d / 10) (k + 1) fuel else (d, k)

/-- What a number's text looks like around its digits. -/
structure ShortestFormat where
  /-- The least and the greatest exponent of the leading digit written without an exponent. -/
  positionalFrom : Int
  positionalTo : Int
  /-- Whether the positional form always has a point. -/
  alwaysPoint : Bool
  /-- Whether the exponential form always has a point. -/
  exponentPoint : Bool
  infinity : String
  undefined : String

/-- The text form of numbers in messages and documents. -/
def ShortestFormat.plain : ShortestFormat :=
  { positionalFrom := -4, positionalTo := 15, alwaysPoint := true, exponentPoint := false
    infinity := "inf", undefined := "nan" }

/-- The form of the parts of a complex number, whose whole parts need no point. -/
def ShortestFormat.part : ShortestFormat := { ShortestFormat.plain with alwaysPoint := false }

/-- The exponent mark, sign and at least two digits. -/
def exponentText (x : Int) : String :=
  let ds := toString x.natAbs
  "e" ++ (if x < 0 then "-" else "+") ++ (if ds.length < 2 then "0" else "") ++ ds

/-- The text of `d * 10 ^ k` with `d` free of trailing zeros. -/
def ShortestFormat.digitsText (f : ShortestFormat) (d : Nat) (k : Int) : String :=
  let ds := Nat.toDigits 10 d
  let lead : Int := k + ds.length - 1
  if f.positionalFrom ≤ lead ∧ lead ≤ f.positionalTo then
    if k ≥ 0 then
      String.ofList (ds ++ List.replicate k.toNat '0') ++ (if f.alwaysPoint then ".0" else "")
    else if lead < 0 then
      "0." ++ String.ofList (List.replicate (-lead - 1).toNat '0' ++ ds)
    else
      let n := (lead + 1).toNat
      String.ofList (ds.take n) ++ "." ++ String.ofList (ds.drop n)
  else
    let head := ds.take 1
    let tail := ds.drop 1
    String.ofList head ++
      (if tail.isEmpty then (if f.exponentPoint then ".0" else "")
        else "." ++ String.ofList tail) ++
      exponentText lead

/-- The text of a number. -/
def ShortestFormat.text (f : ShortestFormat) (x : Binary64) : String :=
  match x.magnitude with
  | .undefined => f.undefined
  | .infinite negative => (if negative then "-" else "") ++ f.infinity
  | .finite negative m e =>
    (if negative then "-" else "") ++
      (if m = 0 then (if f.alwaysPoint then "0.0" else "0")
        else
          let (d, k) := shortestDigits .double m e
          let (d, k) := trimZeros d k 20
          f.digitsText d k)

/-- The text of a number in messages and documents. -/
def Binary64.text (x : Binary64) : String := ShortestFormat.plain.text x

/-- The text of a number of the 32-bit format: the fewest digits that read back in that format. -/
def Binary64.singleText (x : Binary64) : String :=
  match x.ratio? with
  | none => x.text
  | some (n, d) =>
    match roundRatio .single n.natAbs d with
    | none => x.text
    | some (m, e) =>
      if m = 0 then x.text
      else
        let (g, k) := shortestDigits .single m e
        let (g, k) := trimZeros g k 20
        (if n < 0 then "-" else "") ++ ShortestFormat.plain.digitsText g k

/-- The text of a complex number: the imaginary part alone if the real part is positive zero. -/
def complexText (re im : Binary64) : String :=
  let part := ShortestFormat.part.text
  if re = Binary64.zero then part im ++ "j"
  else
    let sign := if im.isNegative && !im.isNaN then "" else "+"
    "(" ++ part re ++ sign ++ part im ++ "j)"

end Dotpath

import Dotpath.Scalar.Text

/-!
# Equality of scalars

Numbers are equal when they denote the same quantity, whatever their types, so `1`, true and `1.0`
are one mapping key.  Every other scalar is equal only to a scalar of its own kind.
-/

namespace Dotpath

/-- A real quantity: an exact quotient in lowest terms, an infinity, or none. -/
inductive Quantity where
  | ratio (num : Int) (den : Nat)
  | infinite (negative : Bool)
  | undefined
  deriving DecidableEq, Repr

/-- The quotient in lowest terms. -/
def Quantity.ofRatio (num : Int) (den : Nat) : Quantity :=
  let g := Nat.gcd num.natAbs den
  if g = 0 then .undefined else .ratio (num / g) (den / g)

/-- The quantity of a floating-point number. -/
def Binary64.quantity (x : Binary64) : Quantity :=
  match x.magnitude with
  | .undefined => .undefined
  | .infinite negative => .infinite negative
  | .finite .. =>
    match x.ratio? with
    | some (n, d) => Quantity.ofRatio n d
    | none => .undefined

/-- The quantity that a decimal text denotes. -/
def decimalQuantity (s : String) : Quantity :=
  let (negative, body) := splitSign s.toList
  let word := body.map Char.toLower
  if word = "infinity".toList then .infinite negative
  else
    let (whole, rest, _) := splitDigitRow body
    let (part, rest) := match rest with
      | '.' :: r => let (p, r, _) := splitDigitRow r; (p, r)
      | r => ([], r)
    match whole ++ part, readExponent? rest with
    | d :: ds, some e =>
      let n : Int := Text.digitsValue (d :: ds)
      let n := if negative then -n else n
      let e := e - part.length
      if n = 0 then .ratio 0 1
      else if e ≥ 0 then Quantity.ofRatio (n * tenTo e.toNat) 1
      else Quantity.ofRatio n (tenTo (-e).toNat)
    | _, _ => .undefined

/-- The quantity that a quotient of integers denotes. -/
def fractionQuantity (s : String) : Quantity :=
  match s.splitOn "/" with
  | [n] => match n.toInt? with
    | some n => .ratio n 1
    | none => .undefined
  | [n, d] => match n.toInt?, d.toNat? with
    | some n, some d => Quantity.ofRatio n d
    | _, _ => .undefined
  | _ => .undefined

namespace Scalar

/-- The real and imaginary quantities of a number. -/
def quantity? : Scalar → Option (Quantity × Quantity)
  | bool b => some (.ratio (if b then 1 else 0) 1, .ratio 0 1)
  | int n => some (.ratio n 1, .ratio 0 1)
  | float x => some (x.quantity, .ratio 0 1)
  | complex re im => some (re.quantity, im.quantity)
  | decimal s => some (decimalQuantity s, .ratio 0 1)
  | fraction s => some (fractionQuantity s, .ratio 0 1)
  | machine _ v => v.quantity?
  | _ => none

/-- The seconds since the first of March of the year zero in universal time, if it is known. -/
def instant? (d : Date) (t : TimeOfDay) : Option (Int × Nat) :=
  t.offset.map fun o => (d.dayNumber * 86400 + t.seconds - o, t.microsecond)

/-- Whether two scalars are one mapping key. -/
def equal (a b : Scalar) : Bool :=
  match a.quantity?, b.quantity? with
  | some (re, im), some (re', im') =>
    re == re' && im == im' && re != .undefined && im != .undefined
  | none, none =>
    match a.plain, b.plain with
    | dateTime d t, dateTime d' t' =>
      match instant? d t, instant? d' t' with
      | some i, some i' => i == i'
      | none, none => d == d' && t == t'
      | _, _ => false
    | bytes bs, memory bs' | memory bs, bytes bs' => bs == bs'
    | a, b => a == b
  | _, _ => false

end Scalar

end Dotpath

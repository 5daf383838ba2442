import Dotpath.Number.Binary64
import Dotpath.Text.Classes

/-!
# Reading numbers

Integers and floating-point numbers read from a whole text: blanks around it are ignored, single
underscores may stand between digits, and digits of every script count.
-/

namespace Dotpath

/-- The longest row of digits that is converted between text and integers. -/
def maxDigits : Nat := 4300

/-- Why a text is not read as an integer. -/
inductive IntegerTrouble where
  /-- The text is not an integer. -/
  | malformed
  /-- More digits than are converted. -/
  | tooLong (digits : Nat)
  deriving DecidableEq, Repr

/-- Blanks become spaces and digits of all scripts become ASCII digits. -/
def asciiDigits (s : List Char) : List Char :=
  s.map fun c =>
    if c.toNat < 128 then c
    else match Text.digitValue? c with
      | some d => Char.ofNat (48 + d)
      | none => if Text.isBlank c then ' ' else c

/-- The text without the ASCII blanks at both ends. -/
def stripAscii (s : List Char) : List Char :=
  let blank (c : Char) : Bool := c == ' ' || (9 ≤ c.toNat && c.toNat ≤ 13)
  ((s.dropWhile blank).reverse.dropWhile blank).reverse

/-- Splits off the longest row of digits with single underscores in between.  The last part is
false if an underscore is not between two digits. -/
def splitDigitRow : List Char → List Char × List Char × Bool
  | c :: '_' :: d :: rest =>
    if Text.isDigit c then
      if Text.isDigit d then
        let (ds, r, ok) := splitDigitRow (d :: rest)
        (c :: ds, r, ok)
      else ([c], d :: rest, false)
    else ([], c :: '_' :: d :: rest, true)
  | [c, '_'] => if Text.isDigit c then ([c], [], false) else ([], [c, '_'], true)
  | c :: rest =>
    if Text.isDigit c then
      let (ds, r, ok) := splitDigitRow rest
      (c :: ds, r, ok)
    else ([], c :: rest, true)
  | [] => ([], [], true)

/-- The sign at the front, true for minus, and the rest. -/
def splitSign : List Char → Bool × List Char
  | '-' :: rest => (true, rest)
  | '+' :: rest => (false, rest)
  | s => (false, s)

/-- Reads a decimal integer. -/
def readInteger (s : List Char) : Except IntegerTrouble Int :=
  let (negative, body) := splitSign (stripAscii (asciiDigits s))
  let (ds, rest, ok) := splitDigitRow body
  if !ok || ds.isEmpty then .error .malformed
  else if ds.length > maxDigits then .error (.tooLong ds.length)
  else if !rest.isEmpty then .error .malformed
  else
    let n : Int := Text.digitsValue ds
    .ok (if negative then -n else n)

/-- The exponent part of a floating-point text: `none` if it is malformed. -/
def readExponent? : List Char → Option Int
  | [] => some 0
  | e :: rest =>
    if e = 'e' ∨ e = 'E' then
      let (negative, body) := splitSign rest
      let (ds, r, ok) := splitDigitRow body
      if ok && !ds.isEmpty && r.isEmpty then
        -- beyond this size the exponent alone decides
        let n : Int := Text.digitsValue (if ds.length > 12 then ds.dropWhile (· == '0') else ds)
        some (if negative then -n else n)
      else none
    else none

/-- Reads an unsigned floating-point number. -/
def readUnsigned? (negative : Bool) (s : List Char) : Option Binary64 :=
  let word := s.map Char.toLower
  if word = "inf".toList ∨ word = "infinity".toList then some (Binary64.infinity negative)
  else if word = "nan".toList then some Binary64.nan
  else
    let (whole, rest, ok) := splitDigitRow s
    if !ok then none
    else
      let (part, rest, ok) :=
        match rest with
        | '.' :: r => splitDigitRow r
        | r => ([], r, true)
      if !ok || (whole.isEmpty && part.isEmpty) then none
      else (readExponent? rest).map fun e =>
        Binary64.ofDecimal negative (Text.digitsValue (whole ++ part)) (e - part.length)

/-- Reads a floating-point number. -/
def Binary64.read? (s : List Char) : Option Binary64 :=
  let (negative, body) := splitSign (stripAscii (asciiDigits s))
  readUnsigned? negative body

end Dotpath

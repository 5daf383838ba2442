import Dotpath.Graph.Entries
import Dotpath.Number.Reading

/-!
# Reading JSON

Reads a JSON text into values on the heap.  The words `NaN`, `Infinity` and `-Infinity` are numbers
too, and a later pair of an object replaces an earlier one with the same key.
-/

namespace Dotpath

namespace Json

/-- The text after leading blanks. -/
def skipBlanks : List Char → List Char
  | c :: cs => if c = ' ' ∨ c = '\t' ∨ c = '\n' ∨ c = '\r' then skipBlanks cs else c :: cs
  | [] => []

/-- The value of a hexadecimal digit. -/
def hexValue? (c : Char) : Option Nat :=
  if '0' ≤ c ∧ c ≤ '9' then some (c.toNat - 48)
  else if 'a' ≤ c ∧ c ≤ 'f' then some (c.toNat - 87)
  else if 'A' ≤ c ∧ c ≤ 'F' then some (c.toNat - 55)
  else none

/-- Four hexadecimal digits and the rest. -/
def hexUnit? : List Char → Option (Nat × List Char)
  | a :: b :: c :: d :: rest => do
    let n := (((← hexValue? a) * 16 + (← hexValue? b)) * 16 + (← hexValue? c)) * 16 +
      (← hexValue? d)
    return (n, rest)
  | _ => none

/-- The character for an escape letter. -/
def escapeLetter? (c : Char) : Option Char :=
  match c with
  | '"' | '\\' | '/' => some c
  | 'b' => some (Char.ofNat 8)
  | 'f' => some (Char.ofNat 12)
  | 'n' => some '\n'
  | 'r' => some '\r'
  | 't' => some '\t'
  | _ => none

/-- The characters up to the closing quote, and the rest. -/
def readText (acc : List Char) : (fuel : Nat) → List Char → Option (String × List Char)
  | 0, _ => none
  | fuel + 1, cs =>
    match cs with
    | '"' :: rest => some (String.ofList acc.reverse, rest)
    | '\\' :: 'u' :: rest => do
      let (n, rest) ← hexUnit? rest
      if 0xd800 ≤ n ∧ n < 0xdc00 then
        match rest with
        | '\\' :: 'u' :: more =>
          match hexUnit? more with
          | some (m, after) =>
            if 0xdc00 ≤ m ∧ m < 0xe000 then
              readText (Char.ofNat (0x10000 + (n - 0xd800) * 0x400 + (m - 0xdc00)) :: acc) fuel
                after
            else readText (Text.ofCodePoint n :: acc) fuel rest
          | none => readText (Text.ofCodePoint n :: acc) fuel rest
        | rest => readText (Text.ofCodePoint n :: acc) fuel rest
      else readText (Text.ofCodePoint n :: acc) fuel rest
    | '\\' :: c :: rest => do readText ((← escapeLetter? c) :: acc) fuel rest
    | c :: rest => if c.toNat < 32 then none else readText (c :: acc) fuel rest
    | [] => none

/-- Leading ASCII digits and the rest. -/
def spanDigits (cs : List Char) : List Char × List Char :=
  (cs.takeWhile Text.isDigit, cs.dropWhile Text.isDigit)

/-- The whole part of a number and the rest.  A zero is a whole part of its own. -/
def readWhole? : List Char → Option (List Char × List Char)
  | '0' :: r => some (['0'], r)
  | r => if (spanDigits r).1.isEmpty then none else some (spanDigits r)

/-- The digits behind the point, if there are any, and the rest. -/
def readPart : List Char → List Char × List Char
  | '.' :: r => if (spanDigits r).1.isEmpty then ([], '.' :: r) else spanDigits r
  | r => ([], r)

/-- The exponent, if there is one, and the rest. -/
def readPower : List Char → Option Int × List Char
  | e :: r =>
    if e = 'e' ∨ e = 'E' then
      let (negative, digits) := splitSign r
      match spanDigits digits with
      | ([], _) => (none, e :: r)
      | (ds, rest) =>
        let n : Int := Text.digitsValue ds
        (some (if negative then -n else n), rest)
    else (none, e :: r)
  | [] => (none, [])

/-- The number of these parts.  Without a fraction and an exponent it is an integer, which may have
too many digits. -/
def number? (negative : Bool) (whole part : List Char) (power : Option Int) : Option Scalar :=
  if part.isEmpty && power.isNone then
    if whole.length > maxDigits then none
    else
      let n : Int := Text.digitsValue whole
      some (.int (if negative then -n else n))
  else
    let digits := Text.digitsValue (whole ++ part)
    some (.float (Binary64.ofDecimal negative digits (power.getD 0 - part.length)))

/-- The sign at the front of a number, true for minus, and the rest. -/
def readMinus : List Char → Bool × List Char
  | '-' :: r => (true, r)
  | r => (false, r)

/-- A number and the rest. -/
def readNumber? (cs : List Char) : Option (Scalar × List Char) := do
  let (whole, rest) ← readWhole? (readMinus cs).2
  let (part, rest) := readPart rest
  let (power, rest) := readPower rest
  let s ← number? (readMinus cs).1 whole part power
  return (s, rest)

/-- The words that stand for scalars. -/
def words : List (String × Scalar) :=
  [("null", .null), ("true", .bool true), ("false", .bool false), ("NaN", .float Binary64.nan),
    ("Infinity", .float (Binary64.infinity false)),
    ("-Infinity", .float (Binary64.infinity true))]

/-- A word or a number and the rest. -/
def readScalar? (cs : List Char) : Option (Scalar × List Char) :=
  match words.find? fun (w, _) => w.toList.isPrefixOf cs with
  | some (w, s) => some (s, cs.drop w.length)
  | none => readNumber? cs

mutual

/-- A value and the rest. -/
def readValue : (fuel : Nat) → Heap → List Char → Option (Value × Heap × List Char)
  | 0, _, _ => none
  | fuel + 1, h, cs =>
    match cs with
    | '"' :: rest => do
      let (s, rest) ← readText [] (rest.length + 1) rest
      return (.scalar (.text s), h, rest)
    | '[' :: rest =>
      match skipBlanks rest with
      | ']' :: rest =>
        let (h, a) := h.alloc (.list [])
        some (.ref a, h, rest)
      | rest => do
        let (items, h, rest) ← readItems fuel h rest
        let (h, a) := h.alloc (.list items)
        return (.ref a, h, rest)
    | '\x7b' :: rest =>
      match skipBlanks rest with
      | '\x7d' :: rest =>
        let (h, a) := h.alloc (.dict .plain [])
        some (.ref a, h, rest)
      | rest => do
        let (pairs, h, rest) ← readPairs fuel h rest
        let (h, a) := h.alloc (.dict .plain (Entries.ofList pairs))
        return (.ref a, h, rest)
    | cs => do
      let (s, rest) ← readScalar? cs
      return (.scalar s, h, rest)

/-- The members of an array up to the closing bracket, and the rest. -/
def readItems : (fuel : Nat) → Heap → List Char → Option (List Value × Heap × List Char)
  | 0, _, _ => none
  | fuel + 1, h, cs => do
    let (v, h, rest) ← readValue fuel h cs
    match skipBlanks rest with
    | ',' :: rest => do
      let (vs, h, rest) ← readItems fuel h (skipBlanks rest)
      return (v :: vs, h, rest)
    | ']' :: rest => return ([v], h, rest)
    | _ => none

/-- The pairs of an object up to the closing brace, and the rest. -/
def readPairs : (fuel : Nat) → Heap → List Char → Option (Entries × Heap × List Char)
  | 0, _, _ => none
  | fuel + 1, h, cs =>
    match cs with
    | '"' :: rest => do
      let (k, rest) ← readText [] (rest.length + 1) rest
      match skipBlanks rest with
      | ':' :: rest => do
        let (v, h, rest) ← readValue fuel h (skipBlanks rest)
        match skipBlanks rest with
        | ',' :: rest => do
          let (es, h, rest) ← readPairs fuel h (skipBlanks rest)
          return ((.scalar (.text k), v) :: es, h, rest)
        | '\x7d' :: rest => return ([(.scalar (.text k), v)], h, rest)
        | _ => none
      | _ => none
    | _ => none

end

/-- Reads a whole JSON text. -/
def read? (h : Heap) (s : String) : Option (Value × Heap) :=
  let cs := skipBlanks s.toList
  match readValue (2 * cs.length + 2) h cs with
  | some (v, h, rest) => if (skipBlanks rest).isEmpty then some (v, h) else none
  | none => none

end Json

end Dotpath

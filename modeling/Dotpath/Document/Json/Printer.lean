import Dotpath.Document.Plain

/-!
# JSON texts

The JSON text of a value, indented by two spaces.  Only ASCII is written, everything else as
escapes.  What JSON has no form for is written as its text.
-/

namespace Dotpath

namespace Json

/-- A 16-bit unit as an escape. -/
def unitEscape (n : Nat) : List Char := ['\\', 'u'] ++ Text.hex 4 n

/-- A character inside a JSON text. -/
def escapedChar (c : Char) : List Char :=
  let n := Text.codePoint c
  if c = '"' ∨ c = '\\' then ['\\', c]
  else if c = '\n' then ['\\', 'n']
  else if c = '\r' then ['\\', 'r']
  else if c = '\t' then ['\\', 't']
  else if n = 12 then ['\\', 'f']
  else if n = 8 then ['\\', 'b']
  else if 32 ≤ n ∧ n < 127 then [c]
  else if n < 0x10000 then unitEscape n
  else
    unitEscape (0xd800 + (n - 0x10000) / 0x400) ++ unitEscape (0xdc00 + (n - 0x10000) % 0x400)

/-- A quoted JSON text. -/
def quoted (s : String) : String :=
  String.ofList ('"' :: (s.toList.flatMap escapedChar ++ ['"']))

/-- A floating-point number in JSON. -/
def floatText (x : Binary64) : String :=
  match x.magnitude with
  | .undefined => "NaN"
  | .infinite false => "Infinity"
  | .infinite true => "-Infinity"
  | .finite .. => x.text

/-- A scalar in JSON, if JSON has a form for it. -/
def scalar? : Scalar → Option (Except Fault String)
  | .null => some (.ok "null")
  | .bool b => some (.ok (if b then "true" else "false"))
  | .int n => some (scalarText (.int n))
  | .float x | .machine "float64" (.float x) => some (.ok (floatText x))
  | .text s | .machine "str_" (.text s) => some (.ok (quoted s))
  | _ => none

/-- A key of an object. -/
def key (h : Heap) (k : Value) : Except Fault String :=
  match k with
  | .scalar (.text s) | .scalar (.machine "str_" (.text s)) => .ok (quoted s)
  | .scalar s =>
    match scalar? s with
    | some t => t.map quoted
    | none => .error (.badDocumentKey (h.typeName k))
  | k => .error (.badDocumentKey (h.typeName k))

/-- The start of a new line at a depth. -/
def newline (depth : Nat) : String := "\n" ++ "".pushn ' ' (2 * depth)

/-- Parts between brackets, each on a line of its own. -/
def block (depth : Nat) (left right : String) (parts : List String) : String :=
  if parts.isEmpty then left ++ right
  else
    left ++ newline (depth + 1) ++ String.intercalate ("," ++ newline (depth + 1)) parts ++
      newline depth ++ right

/-- The JSON text of a value inside the containers `around`. -/
def printWith (σ : Schema) (h : Heap) : (fuel : Nat) → (depth : Nat) → (around : List Address) →
    Value → Except Fault String
  | 0, _, _, _ => .error endlessText
  | fuel + 1, depth, around, v =>
    let array (around : List Address) (items : List Value) : Except Fault String := do
      return block depth "[" "]" (← items.mapM (printWith σ h fuel (depth + 1) around))
    let other : Except Fault String := do return quoted (← h.text σ v)
    match v with
    | .scalar s => (scalar? s).getD other
    | .tuple items | .named _ _ items => array around items
    | .ref a =>
      match h.get? a with
      | some (.list items) =>
        if around.contains a then .error .circularDocument else array (a :: around) items
      | some (.dict _ es) =>
        if around.contains a then .error .circularDocument
        else do
          let parts ← es.mapM fun (k, v) => do
            let k ← key h k
            return k ++ ": " ++ (← printWith σ h fuel (depth + 1) (a :: around) v)
          return block depth "\x7b" "\x7d" parts
      | _ => other
    | _ => other

/-- The JSON text of a value. -/
def print (σ : Schema) (h : Heap) (v : Value) : Except Fault String :=
  printWith σ h (h.fuel σ v) 0 [] v

end Json

end Dotpath

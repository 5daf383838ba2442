import Dotpath.Document.Plain
import Dotpath.Document.Yaml.Style

/-!
# YAML texts

The YAML text of plain data: collections as blocks, two columns deeper each, and scalars in the
simplest style that reads back.  A collection that is met again is written as an alias of its first
appearance.
-/

namespace Dotpath.Yaml

/-! ## What is written -/

/-- The digits in base sixty-four of three bytes, with padding for those that are missing. -/
def sextets (a : UInt8) (b c : Option UInt8) : List Char :=
  let digits := "ABCDEFGHIJKLMNOPQRSTUVWXYZabcdefghijklmnopqrstuvwxyz0123456789+/".toList
  let digit (n : Nat) : Char := (digits[n]?).getD '='
  let x := a.toNat
  let y := (b.map UInt8.toNat).getD 0
  let z := (c.map UInt8.toNat).getD 0
  [digit (x / 4), digit (x % 4 * 16 + y / 16),
    if b.isSome then digit (y % 16 * 4 + z / 64) else '=',
    if c.isSome then digit (z % 64) else '=']

/-- Bytes in base sixty-four. -/
def sextetText : List UInt8 → List Char
  | [] => []
  | [a] => sextets a none none
  | [a, b] => sextets a (some b) none
  | a :: b :: c :: bs => sextets a (some b) (some c) ++ sextetText bs

/-- Lines of a text, of 76 characters at most. -/
def sextetLines : (fuel : Nat) → List Char → List (List Char)
  | 0, _ => []
  | fuel + 1, cs => if cs.isEmpty then [] else cs.take 76 :: sextetLines fuel (cs.drop 76)

/-- A floating-point number in YAML, always with a point. -/
def floatText (x : Binary64) : String :=
  match x.magnitude with
  | .undefined => ".nan"
  | .infinite false => ".inf"
  | .infinite true => "-.inf"
  | .finite .. =>
    let cs := x.text.toList
    if cs.contains '.' then x.text
    else String.ofList (cs.takeWhile (· != 'e') ++ (if cs.contains 'e' then ".0".toList else []) ++
      cs.dropWhile (· != 'e'))

/-- A scalar as it is written: a tag with a text, or bytes. -/
inductive Written where
  | text (tag : Tag) (text : String)
  | bytes (bs : List UInt8)

/-- A scalar as it is written. -/
def Written.ofScalar : Scalar → Except Fault Written
  | .null => .ok (text .null "null")
  | .bool b => .ok (text .bool (if b then "true" else "false"))
  | .int n => do return text .int (← scalarText (.int n))
  | .float x => .ok (text .float (floatText x))
  | .text s => .ok (text .str s)
  | .bytes bs => .ok (bytes bs)
  | .date d => .ok (text .timestamp d.text)
  | .dateTime d t => .ok (text .timestamp (d.text ++ " " ++ t.text))
  | _ => .error .document

/-- A collection as it is written. -/
inductive Written.Collection where
  | sequence (items : List Value)
  | mapping (isSet : Bool) (pairs : Entries)

/-- The collection at an address. -/
def collection (h : Heap) (a : Address) : Except Fault Written.Collection :=
  match h.get? a with
  | some (.list items) => .ok (.sequence items)
  | some (.set items) => .ok (.mapping true (items.map fun v => (v, .scalar .null)))
  | some (.dict .plain es) => .ok (.mapping false es)
  | _ => .error .document

/-- The collections of a value in the order in which they are met. -/
structure Met where
  once : List Address := []
  /-- Those that are met again, in the order in which that happens. -/
  again : List Address := []

/-- Checks that everything in a value can be written, and notes its collections. -/
def meet (h : Heap) : (fuel : Nat) → Met → Value → Except Fault Met
  | 0, _, _ => .error endlessText
  | _ + 1, m, .scalar s => do
    let _ ← Written.ofScalar s
    return m
  | fuel + 1, m, .tuple items => items.foldlM (meet h fuel) m
  | fuel + 1, m, .ref a =>
    if m.once.contains a then
      .ok (if m.again.contains a then m else { m with again := m.again ++ [a] })
    else do
      let m := { m with once := a :: m.once }
      match ← collection h a with
      | .sequence items => items.foldlM (meet h fuel) m
      | .mapping _ es => es.foldlM (fun m (k, v) => do meet h fuel (← meet h fuel m k) v) m
  | _, _, _ => .error .document

/-! ## Writing -/

/-- Where a node stands. -/
inductive Place where
  | root | item | value
  deriving DecidableEq

/-- The column of what is inside a node. -/
def inner (indent : Option Nat) (first : Nat) : Nat := (indent.map (· + 2)).getD first

/-- The name of the anchor of a collection that is met again. -/
def anchorOf (again : List Address) (a : Address) : String :=
  "id" ++ padded 3 (again.idxOf a + 1)

/-- Whether a key is written in front of a colon on one line. -/
def isSimpleKey (tag : Tag) (text : String) : Bool :=
  let a := analyze text
  tag.short.length + text.length < 128 && !a.empty && !a.multiline

/-- Writes a scalar. -/
def putWritten (p : Pen) (indent : Option Nat) (place : Place) (w : Written) : Pen :=
  let column := inner indent 2
  match w with
  | .text tag text => putScalar p column (place == .root) false tag text
  | .bytes bs =>
    let p := p.sign Tag.binary.short true
    if bs.isEmpty then putDouble p column true []
    else
      let cs := sextetText bs
      putBlock p column (sextetLines cs.length cs)

/-- Writes a value.  `written` are the collections that are written already. -/
def put (h : Heap) (again : List Address) : (fuel : Nat) → Pen × List Address → Option Nat →
    Place → Value → Except Fault (Pen × List Address)
  | 0, _, _, _, _ => .error endlessText
  | fuel + 1, (p, written), indent, place, v => do
    let sequence (p : Pen) (written : List Address) (items : List Value) :
        Except Fault (Pen × List Address) :=
      if items.isEmpty then .ok ((p.sign "[" true true).sign "]" false, written)
      else
        let column := if place == .value && !p.fresh then indent.getD 0 else inner indent 0
        items.foldlM (fun (p, written) v =>
          put h again fuel ((p.indentTo column).sign "-" true false true, written) (some column)
            .item v) (p, written)
    let mapping (p : Pen) (written : List Address) (es : Entries) :
        Except Fault (Pen × List Address) :=
      if es.isEmpty then .ok ((p.sign "\x7b" true true).sign "\x7d" false, written)
      else
        let column := inner indent 0
        es.foldlM (fun (p, written) (k, v) => do
          let p := p.indentTo column
          let key ← match k with
            | .scalar s => do
              match ← Written.ofScalar s with
              | .text tag text =>
                pure (if isSimpleKey tag text then some (tag, text) else none)
              | .bytes _ => pure none
            | _ => pure none
          match key with
          | some (tag, text) =>
            let p := (putScalar p (column + 2) false true tag text).sign ":" false
            put h again fuel (p, written) (some column) .value v
          | none =>
            let p := p.sign "?" true false true
            let (p, written) ← put h again fuel (p, written) (some column) .value k
            let p := (p.indentTo column).sign ":" true false true
            put h again fuel (p, written) (some column) .value v) (p, written)
    match v with
    | .scalar s => return (putWritten p indent place (← Written.ofScalar s), written)
    | .tuple items => sequence p written items
    | .ref a =>
      let isAgain := again.contains a
      if isAgain && written.contains a then
        return (p.sign ("*" ++ anchorOf again a) true, written)
      else
        let p := if isAgain then p.sign ("&" ++ anchorOf again a) true else p
        let written := a :: written
        match ← collection h a with
        | .sequence items => sequence p written items
        | .mapping isSet es =>
          mapping (if isSet then p.sign Tag.set.short true else p) written es
    | _ => throw .document

/-- The YAML text of plain data. -/
def print (σ : Schema) (h : Heap) (v : Value) : Except Fault String := do
  let fuel := h.fuel σ v
  let m ← meet h fuel {} v
  let (p, _) ← put h m.again fuel ({}, []) none .root v
  let p := p.indentTo 0
  let p := if p.unended then (p.sign "..." true).indentTo 0 else p
  return p.text

end Dotpath.Yaml

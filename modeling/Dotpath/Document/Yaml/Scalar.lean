import Dotpath.Document.Json.Reader
import Dotpath.Document.Yaml.Cursor

/-!
# Scalars in YAML texts

The text of a scalar in each of its styles: plain, between quotes, or as a block of lines.  Lines
are folded: a single line break becomes a space, and of several the first is left out.
-/

namespace Dotpath.Yaml

/-- The text is malformed. -/
def malformed {α : Type} : Except Fault α := .error .document

/-! ## Quoted scalars -/

/-- The characters for single escape letters. -/
def escapeLetters : List (Char × Nat) :=
  [('0', 0), ('a', 7), ('b', 8), ('t', 9), ('\t', 9), ('n', 10), ('v', 11), ('f', 12), ('r', 13),
    ('e', 27), (' ', 32), ('"', 34), ('\\', 92), ('/', 47), ('N', 0x85), ('_', 0xa0),
    ('L', 0x2028), ('P', 0x2029)]

/-- The number of hexadecimal digits after an escape letter. -/
def escapeWidths : List (Char × Nat) := [('x', 2), ('u', 4), ('U', 8)]

/-- The number that hexadecimal digits denote. -/
def hexNumber? (ds : List Char) : Option Nat :=
  ds.foldl (fun n d => do return (← n) * 16 + (← Json.hexValue? d)) (some 0)

/-- A character by its code. -/
def codeChar (n : Nat) : Except Fault Char :=
  if n ≥ 0x110000 then .error .badCharacterCode else .ok (Text.ofCodePoint n)

/-- Line breaks and the blanks before and between them. -/
def quotedBreaks (acc : List Char) : (fuel : Nat) → Cursor → Except Fault (List Char × Cursor)
  | 0, _ => malformed
  | fuel + 1, c =>
    if c.isAnyMark then malformed
    else
      let c := c.skip fun x => x == ' ' || x == '\t'
      match c.lineBreak with
      | ([], _) => .ok (acc, c)
      | (b, c) => quotedBreaks (acc ++ b) fuel c

/-- Blanks inside quotes: folded if there is a line break among them. -/
def quotedSpaces (c : Cursor) : Except Fault (List Char × Cursor) :=
  let (blanks, c) := c.span fun x => x == ' ' || x == '\t'
  if c.rest.isEmpty then malformed
  else match c.lineBreak with
    | ([], _) => .ok (blanks, c)
    | (b, c) => do
      let (breaks, c) ← quotedBreaks [] (c.rest.length + 1) c
      let first := if b != ['\n'] then b else if breaks.isEmpty then [' '] else []
      return (first ++ breaks, c)

/-- An escape after its backslash. -/
def escaped (c : Cursor) : Except Fault (List Char × Cursor) :=
  let x := c.peek
  match escapeLetters.lookup x, escapeWidths.lookup x with
  | some n, _ => .ok ([Char.ofNat n], c.advance)
  | none, some width =>
    let ds := (c.advance.rest).take width
    if ds.length < width then malformed
    else match hexNumber? ds with
      | none => malformed
      | some n => do return ([← codeChar n], c.advanceBy (width + 1))
  | none, none =>
    match c.lineBreak with
    | ([], _) => malformed
    | (_, c) => quotedBreaks [] (c.rest.length + 1) c

/-- The content of a quoted scalar after the opening quote, and the place after the closing one. -/
def quotedContent (double : Bool) (acc : List Char) : (fuel : Nat) → Cursor → Except Fault (String × Cursor)
  | 0, _ => malformed
  | fuel + 1, c =>
    let (text, c) := c.span fun x =>
      !(x == '\'' || x == '"' || x == '\\' || isBlankOrEnd x)
    let acc := acc ++ text
    let x := c.peek
    if !double && x == '\'' && c.peekAt 1 == '\'' then
      quotedContent double (acc ++ ['\'']) fuel (c.advanceBy 2)
    else if x == (if double then '"' else '\'') then .ok (String.ofList acc, c.advance)
    else if x == '\'' || x == '"' || (!double && x == '\\') then
      quotedContent double (acc ++ [x]) fuel c.advance
    else if x == '\\' then do
      let (part, c) ← escaped c.advance
      quotedContent double (acc ++ part) fuel c
    else do
      let (part, c) ← quotedSpaces c
      quotedContent double (acc ++ part) fuel c

/-- A quoted scalar. -/
def quotedScalar (c : Cursor) : Except Fault (String × Cursor) :=
  quotedContent (c.peek == '"') [] (c.rest.length + 1) c.advance

/-! ## Block scalars -/

/-- How the line breaks at the end of a block are treated. -/
inductive Chomping where
  | clip | strip | keep
  deriving DecidableEq, Repr

/-- The head of a block scalar: chomping and the given indentation. -/
def blockHead (c : Cursor) : Except Fault ((Chomping × Option Nat) × Cursor) :=
  let chomping? (c : Cursor) : Option Chomping × Cursor :=
    if c.peek == '+' then (some .keep, c.advance)
    else if c.peek == '-' then (some .strip, c.advance)
    else (none, c)
  let digit? (c : Cursor) : Option Nat × Cursor :=
    if Text.isDigit c.peek then (some (c.peek.toNat - 48), c.advance) else (none, c)
  let (k, c) := chomping? c
  let (d, c) := digit? c
  let (k, c) := match k, d with
    | none, some _ => chomping? c
    | k, _ => (k, c)
  if d == some 0 || !isSpaceOrEnd c.peek then malformed
  else .ok ((k.getD .clip, d), c)

/-- The rest of a line that may hold a comment only. -/
def ignoredLine (c : Cursor) : Except Fault Cursor :=
  let c := c.skip (· == ' ')
  let c := if c.peek == '#' then c.skip (!isLineEnd ·) else c
  if isLineEnd c.peek then .ok c.lineBreak.2 else malformed

/-- Empty lines before a block, and the deepest column reached among them. -/
def blockIndentation (breaks : List Char) (deepest : Nat) : (fuel : Nat) → Cursor →
    List Char × Nat × Cursor
  | 0, c => (breaks, deepest, c)
  | fuel + 1, c =>
    if c.peek == ' ' then
      let c := c.advance
      blockIndentation breaks (max deepest c.column) fuel c
    else match c.lineBreak with
      | ([], _) => (breaks, deepest, c)
      | (b, c) => blockIndentation (breaks ++ b) deepest fuel c

/-- Past spaces, up to a column. -/
def skipIndent (indent : Nat) : (fuel : Nat) → Cursor → Cursor
  | 0, c => c
  | fuel + 1, c =>
    if c.column < indent && c.peek == ' ' then skipIndent indent fuel c.advance else c

/-- Empty lines inside a block. -/
def blockBreaks (indent : Nat) (breaks : List Char) : (fuel : Nat) → Cursor → List Char × Cursor
  | 0, c => (breaks, c)
  | fuel + 1, c =>
    let c := skipIndent indent (c.rest.length + 1) c
    match c.lineBreak with
    | ([], _) => (breaks, c)
    | (b, c) => blockBreaks indent (breaks ++ b) fuel c

/-- The lines of a block: the text, the last line break, and the empty lines after it. -/
def blockLines (folded : Bool) (indent : Nat) (acc breaks : List Char) : (fuel : Nat) → Cursor →
    List Char × List Char × List Char × Cursor
  | 0, c => (acc, [], breaks, c)
  | fuel + 1, c =>
    let flush (x : Char) : Bool := x != ' ' && x != '\t'
    let acc := acc ++ breaks
    let leading := flush c.peek
    let (text, c) := c.span (!isLineEnd ·)
    let acc := acc ++ text
    let (b, c) := c.lineBreak
    let (breaks, c) := blockBreaks indent [] (c.rest.length + 1) c
    if c.column == indent && !c.rest.isEmpty then
      let joint :=
        if folded && b == ['\n'] && leading && flush c.peek then
          (if breaks.isEmpty then [' '] else [])
        else b
      blockLines folded indent (acc ++ joint) breaks fuel c
    else (acc, b, breaks, c)

/-- A block scalar inside a block of the given indentation. -/
def blockScalar (outer : Int) (c : Cursor) : Except Fault (String × Cursor) := do
  let folded := c.peek == '>'
  let ((chomping, increment), c) ← blockHead c.advance
  let c ← ignoredLine c
  let least := (max (outer + 1) 1).toNat
  let (breaks, indent, c) := match increment with
    | none =>
      let (breaks, deepest, c) := blockIndentation [] 0 (c.rest.length + 1) c
      (breaks, max least deepest, c)
    | some n =>
      let indent := least + n - 1
      let (breaks, c) := blockBreaks indent [] (c.rest.length + 1) c
      (breaks, indent, c)
  let (text, b, breaks, c) :=
    if c.column == indent && !c.rest.isEmpty then
      blockLines folded indent [] breaks (c.rest.length + 1) c
    else ([], [], breaks, c)
  let tail := match chomping with
    | .strip => []
    | .clip => b
    | .keep => b ++ breaks
  return (String.ofList (text ++ tail), c)

/-! ## Plain scalars -/

/-- The length of the piece of a plain scalar that starts here. -/
def plainLength (flow : Bool) : List Char → Nat
  | [] => 0
  | x :: rest =>
    let next := rest.headD endMark
    let inFlow (x : Char) : Bool := flow && (x == ',' || x == '[' || x == ']' || x == '\x7b' ||
      x == '\x7d')
    if isBlankOrEnd x || (x == ':' && (isBlankOrEnd next || inFlow next)) || inFlow x ||
        (flow && x == '?') then 0
    else plainLength flow rest + 1

/-- Line breaks and spaces after the first line break of a plain scalar; none at a document mark. -/
def plainBreaks (acc : List Char) : (fuel : Nat) → Cursor → Option (List Char) × Cursor
  | 0, c => (some acc, c)
  | fuel + 1, c =>
    if c.peek == ' ' then plainBreaks acc fuel c.advance
    else match c.lineBreak with
      | ([], _) => (some acc, c)
      | (b, c) => if c.isAnyMark then (none, c) else plainBreaks (acc ++ b) fuel c

/-- The blanks between the pieces of a plain scalar, and whether a line ended. -/
def plainSpaces (c : Cursor) : List Char × Bool × Cursor :=
  let (blanks, c) := c.span (· == ' ')
  match c.lineBreak with
  | ([], _) => (blanks, false, c)
  | (b, c) =>
    if c.isAnyMark then ([], true, c)
    else match plainBreaks [] (c.rest.length + 1) c with
      | (none, c) => ([], true, c)
      | (some breaks, c) =>
        let first := if b != ['\n'] then b else if breaks.isEmpty then [' '] else []
        (first ++ breaks, true, c)

/-- The pieces of a plain scalar, and whether the last of its blanks held a line break. -/
def plainPieces (flow : Bool) (indent : Int) (acc spaces : List Char) (ended : Bool) :
    (fuel : Nat) → Cursor → List Char × Bool × Cursor
  | 0, c => (acc, ended, c)
  | fuel + 1, c =>
    let n := if c.peek == '#' then 0 else plainLength flow c.rest
    if n == 0 then (acc, ended, c)
    else
      let acc := acc ++ spaces ++ c.rest.take n
      let (spaces, ended, c) := plainSpaces (c.advanceBy n)
      if spaces.isEmpty || c.peek == '#' || (!flow && (c.column : Int) < indent) then
        (acc, ended, c)
      else plainPieces flow indent acc spaces ended fuel c

/-- A plain scalar inside a block of the given indentation; with it, whether a line ended after
it. -/
def plainScalar (flow : Bool) (outer : Int) (c : Cursor) : (String × Bool) × Cursor :=
  let (text, ended, c) := plainPieces flow (outer + 1) [] [] false (c.rest.length + 1) c
  ((String.ofList text, ended), c)

end Dotpath.Yaml

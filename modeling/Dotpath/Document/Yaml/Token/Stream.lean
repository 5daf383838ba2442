import Dotpath.Document.Yaml.Token.Basic

/-!
# The token stream

Splits a text into tokens.  Indentation opens and closes blocks, and a colon turns what stands
before it on its line into a key: the key token is put in where that began.
-/

namespace Dotpath.Yaml

/-- A place where a key may have begun. -/
structure KeyStart where
  /-- The depth of flow brackets. -/
  level : Nat
  /-- The number of tokens before it. -/
  position : Nat
  /-- Nothing but a key can stand here. -/
  required : Bool
  index : Nat
  line : Nat
  column : Nat

/-- How far a text has been split. -/
structure Scan where
  cursor : Cursor
  tokens : List Token := []
  /-- The depth of flow brackets. -/
  level : Nat := 0
  /-- The column of the innermost block, and of those around it. -/
  indent : Int := -1
  outer : List Int := []
  /-- Whether a key may begin here. -/
  keyAllowed : Bool := true
  starts : List KeyStart := []

namespace Scan

/-- The longest text of a key on its line. -/
def longestKey : Nat := 1024

/-- Adds a token. -/
def emit (s : Scan) (t : Token) : Scan := { s with tokens := s.tokens ++ [t] }

/-- Puts a token in where a key began. -/
def insert (s : Scan) (k : KeyStart) (t : Token) : Scan :=
  { s with tokens := s.tokens.take k.position ++ t :: s.tokens.drop k.position }

/-- Past spaces, comments and line breaks. -/
def skipSpace : (fuel : Nat) → Scan → Scan
  | 0, s => s
  | fuel + 1, s =>
    let c := s.cursor.skip (· == ' ')
    let c := if c.peek == '#' then c.skip (!isLineEnd ·) else c
    match c.lineBreak with
    | ([], _) => { s with cursor := c }
    | (_, c) => skipSpace fuel { s with cursor := c, keyAllowed := s.keyAllowed || s.level == 0 }

/-- Gives up starts of keys that pass a test. -/
def dropStarts (s : Scan) (p : KeyStart → Bool) : Except Fault Scan :=
  if s.starts.any fun k => p k && k.required then malformed
  else .ok { s with starts := s.starts.filter (!p ·) }

/-- Gives up the starts of keys that are too far away. -/
def dropStale (s : Scan) : Except Fault Scan :=
  s.dropStarts fun k => k.line != s.cursor.line || s.cursor.index - k.index > longestKey

/-- Gives up the start of a key between the innermost brackets. -/
def dropStart (s : Scan) : Except Fault Scan := s.dropStarts fun k => k.level == s.level

/-- Notes that a key may begin here. -/
def noteStart (s : Scan) : Except Fault Scan :=
  if !s.keyAllowed then .ok s
  else do
    let s ← s.dropStart
    let c := s.cursor
    return { s with starts := ⟨s.level, s.tokens.length, s.level == 0 && s.indent == c.column,
      c.index, c.line, c.column⟩ :: s.starts }

/-- Closes the blocks to the right of a column. -/
def closeBlocks (column : Int) (s : Scan) : Scan :=
  if s.level != 0 then s
  else
    let rec close (indent : Int) (outer : List Int) (tokens : List Token) : Scan :=
      if indent > column then
        match outer with
        | [] => { s with indent := -1, outer := [], tokens := tokens ++ [.blockEnd] }
        | i :: outer => close i outer (tokens ++ [.blockEnd])
      else { s with indent, outer, tokens }
    close s.indent s.outer s.tokens

/-- Opens a block at a column, unless it is open. -/
def openBlock (s : Scan) (column : Nat) : Option Scan :=
  if s.indent < column then
    some { s with indent := column, outer := s.indent :: s.outer }
  else none

/-- Adds a token that closes everything before it. -/
def emitMark (s : Scan) (t : Token) (c : Cursor) : Except Fault Scan := do
  let s ← (s.closeBlocks (-1)).dropStart
  return { s.emit t with keyAllowed := false, cursor := c }

/-- Adds a token that opens a flow bracket. -/
def openBracket (s : Scan) (t : Token) : Except Fault Scan := do
  let s ← s.noteStart
  return { s.emit t with level := s.level + 1, keyAllowed := true, cursor := s.cursor.advance }

/-- Adds a token that closes a flow bracket. -/
def closeBracket (s : Scan) (t : Token) : Except Fault Scan := do
  let s ← s.dropStart
  if s.level = 0 then malformed
  else return { s.emit t with level := s.level - 1, keyAllowed := false, cursor := s.cursor.advance }

/-- Opens a block with a token, if a block may begin here and none is open at this column. -/
def beginBlock (s : Scan) (t : Token) : Except Fault Scan :=
  if s.level != 0 then .ok s
  else if !s.keyAllowed then malformed
  else match s.openBlock s.cursor.column with
    | some s => .ok (s.emit t)
    | none => .ok s

/-- Adds the token of a key's or an entry's sign. -/
def emitSign (s : Scan) (block sign : Token) (keyAllowed : Bool) : Except Fault Scan := do
  let s ← s.beginBlock block
  let s ← s.dropStart
  return { s.emit sign with keyAllowed, cursor := s.cursor.advance }

/-- Adds the token of a value, and before it that of its key. -/
def emitValue (s : Scan) : Except Fault Scan :=
  match s.starts.find? fun k => k.level == s.level with
  | none => s.emitSign .blockMapping .value (s.level == 0)
  | some k =>
    let s := { s with starts := s.starts.filter (·.level != s.level) }
    let s := s.insert k .key
    let s := if s.level != 0 then s else match s.openBlock k.column with
      | some s => s.insert k .blockMapping
      | none => s
    .ok { s.emit .value with keyAllowed := false, cursor := s.cursor.advance }

/-- Adds the token of something that a key may begin with. -/
def emitPart (s : Scan) (read : Cursor → Except Fault (Token × Cursor)) : Except Fault Scan := do
  let s ← s.noteStart
  let (t, c) ← read s.cursor
  return { s.emit t with keyAllowed := false, cursor := c }

/-- Whether a plain scalar begins here. -/
def beginsPlain (s : Scan) : Bool :=
  let x := s.cursor.peek
  !(isBlankOrEnd x || "-?:,[]\x7b\x7d#&*!|>'\"%@\x60".toList.contains x) ||
    (!isBlankOrEnd (s.cursor.peekAt 1) && (x == '-' || (s.level == 0 && (x == '?' || x == ':'))))

/-- Adds the next token. -/
def step (s : Scan) : Except Fault Scan := do
  let c := s.cursor
  let x := c.peek
  let flow := s.level != 0
  let blankNext := isBlankOrEnd (c.peekAt 1)
  if x == '%' && c.column == 0 then
    let (d, c) ← directive c.advance
    s.emitMark (.directive d) c
  else if c.column == 0 && c.isMark '-' then s.emitMark .documentStart (c.advanceBy 3)
  else if c.column == 0 && c.isMark '.' then s.emitMark .documentEnd (c.advanceBy 3)
  else if x == '[' then s.openBracket .flowSequence
  else if x == '\x7b' then s.openBracket .flowMapping
  else if x == ']' then s.closeBracket .flowSequenceEnd
  else if x == '\x7d' then s.closeBracket .flowMappingEnd
  else if x == ',' then
    let s ← s.dropStart
    return { s.emit .flowEntry with keyAllowed := true, cursor := c.advance }
  else if x == '-' && blankNext then s.emitSign .blockSequence .blockEntry true
  else if x == '?' && (flow || blankNext) then s.emitSign .blockMapping .key (!flow)
  else if x == ':' && (flow || blankNext) then s.emitValue
  else if x == '*' then s.emitPart fun c => do
    let (name, c) ← anchorName c.advance
    return (.alias name, c)
  else if x == '&' then s.emitPart fun c => do
    let (name, c) ← anchorName c.advance
    return (.anchor name, c)
  else if x == '!' then s.emitPart tagToken
  else if (x == '|' || x == '>') && !flow then
    let s ← s.dropStart
    let (text, c) ← blockScalar s.indent c
    return { s.emit (.scalar text false) with keyAllowed := true, cursor := c }
  else if x == '\'' || x == '"' then s.emitPart fun c => do
    let (text, c) ← quotedScalar c
    return (.scalar text false, c)
  else if s.beginsPlain then
    let s ← s.noteStart
    let ((text, ended), c) := plainScalar flow s.indent c
    return { s.emit (.scalar text true) with keyAllowed := ended, cursor := c }
  else malformed

/-- Adds tokens up to the end of the text. -/
def run : (fuel : Nat) → Scan → Except Fault (List Token)
  | 0, _ => malformed
  | fuel + 1, s => do
    let s ← (s.skipSpace (s.cursor.rest.length + 1)).dropStale
    let s := s.closeBlocks s.cursor.column
    if s.cursor.rest.isEmpty then
      let s ← (s.closeBlocks (-1)).dropStart
      return s.tokens
    else run fuel (← s.step)

end Scan

/-- The tokens of a text.  A mark of byte order at its start is left out. -/
def tokens (text : String) : Except Fault (List Token) :=
  let cs := text.toList
  if !cs.all isAllowed then malformed
  else
    let c : Cursor := { rest := cs }
    let c := if c.peek.toNat = 0xfeff then c.advance else c
    Scan.run (cs.length + 1) { cursor := c }

end Dotpath.Yaml

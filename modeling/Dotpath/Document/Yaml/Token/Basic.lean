import Dotpath.Document.Yaml.Scalar

/-!
# Tokens of YAML texts

The tokens, and the text of the smaller ones: names of anchors, tags, and directives.
-/

namespace Dotpath.Yaml

/-- A line about the document that follows. -/
inductive Directive where
  | version (major : Nat)
  | tagHandle (handle uri : String)
  | other
  deriving DecidableEq, Repr

/-- A token.  The start and end of a block have no text of their own: indentation decides. -/
inductive Token where
  | directive (d : Directive)
  | documentStart | documentEnd
  | blockSequence | blockMapping | blockEnd
  | flowSequence | flowSequenceEnd | flowMapping | flowMappingEnd
  | blockEntry | flowEntry | key | value
  | alias (name : String)
  | anchor (name : String)
  | tag (handle : Option String) (suffix : String)
  | scalar (text : String) (plain : Bool)
  deriving DecidableEq, Repr

/-! ## Anchors -/

/-- The name of an anchor or an alias. -/
def anchorName (c : Cursor) : Except Fault (String × Cursor) :=
  let (name, c) := c.span isNameChar
  let x := c.peek
  if name.isEmpty || !(isBlankOrEnd x || "?:,]\x7d%@\x60".toList.contains x) then malformed
  else .ok (String.ofList name, c)

/-! ## Tags -/

/-- A character of a tag. -/
def isTagChar (c : Char) : Bool := c.isAlphanum || "-;/?:@&=+$,_.!~*'()[]%".toList.contains c

/-- The bytes of a row of escapes. -/
def escapedBytes : List Char → Option (List UInt8 × List Char)
  | '%' :: rest => match rest with
    | a :: b :: rest => do
      let n := (← Json.hexValue? a) * 16 + (← Json.hexValue? b)
      let (bs, rest) ← escapedBytes rest
      return (UInt8.ofNat n :: bs, rest)
    | _ => none
  | rest => some ([], rest)

/-- A tag's text with its escapes read. -/
def tagText (acc : List Char) : (fuel : Nat) → Cursor → Except Fault (String × Cursor)
  | 0, _ => malformed
  | fuel + 1, c =>
    if c.peek == '%' then
      match escapedBytes c.rest with
      | none => malformed
      | some (bs, rest) => match String.fromUTF8? ⟨bs.toArray⟩ with
        | none => malformed
        | some s => tagText (acc ++ s.toList) fuel (c.advanceBy (c.rest.length - rest.length))
    else if isTagChar c.peek then tagText (acc ++ [c.peek]) fuel c.advance
    else .ok (String.ofList acc, c)

/-- A tag or the end of one, which has a character at least. -/
def tagSuffix (c : Cursor) : Except Fault (String × Cursor) :=
  if isTagChar c.peek then tagText [] (c.rest.length + 1) c else malformed

/-- A handle of tags: a name between exclamation marks, or less. -/
def tagHandle (c : Cursor) : Except Fault (String × Cursor) :=
  if c.peek != '!' then malformed
  else if c.peekAt 1 == ' ' then .ok ("!", c.advance)
  else
    let (name, c) := c.advance.span isNameChar
    if c.peek != '!' then malformed
    else .ok (String.ofList ('!' :: name ++ ['!']), c.advance)

/-- A tag, which a space or the end of the line follows. -/
def tagToken (c : Cursor) : Except Fault (Token × Cursor) := do
  let next := c.peekAt 1
  let (t, c) ←
    if next == '<' then do
      let (uri, c) ← tagSuffix (c.advanceBy 2)
      if c.peek != '>' then malformed else return (Token.tag none uri, c.advance)
    else if isBlankOrEnd next then .ok (Token.tag none "!", c.advance)
    else if (c.advance.rest.takeWhile (!isSpaceOrEnd ·)).contains '!' then do
      let (handle, c) ← tagHandle c
      let (suffix, c) ← tagSuffix c
      return (Token.tag (some handle) suffix, c)
    else do
      let (suffix, c) ← tagSuffix c.advance
      return (Token.tag (some "!") suffix, c)
  if isSpaceOrEnd c.peek then return (t, c) else malformed

/-! ## Directives -/

/-- A number of a version. -/
def versionNumber (c : Cursor) : Except Fault (Nat × Cursor) :=
  let (ds, c) := c.span Text.isDigit
  if ds.isEmpty then malformed
  else if ds.length > maxDigits then .error (.tooManyDigits ds.length)
  else .ok (Text.digitsValue ds, c)

/-- A directive after its percent sign, with the rest of its line. -/
def directive (c : Cursor) : Except Fault (Directive × Cursor) := do
  let (name, c) := c.span isNameChar
  if name.isEmpty || !isSpaceOrEnd c.peek then malformed
  else
    let spaces (c : Cursor) : Cursor := c.skip (· == ' ')
    let (d, c) ←
      if name == "YAML".toList then do
        let (major, c) ← versionNumber (spaces c)
        if c.peek != '.' then malformed
        else
          let (_, c) ← versionNumber c.advance
          if isSpaceOrEnd c.peek then return (Directive.version major, c) else malformed
      else if name == "TAG".toList then do
        let (handle, c) ← tagHandle (spaces c)
        if c.peek != ' ' then malformed
        else
          let (uri, c) ← tagSuffix (spaces c)
          if isSpaceOrEnd c.peek then return (Directive.tagHandle handle uri, c) else malformed
      else .ok (Directive.other, c.skip (!isLineEnd ·))
    return (d, ← ignoredLine c)

end Dotpath.Yaml

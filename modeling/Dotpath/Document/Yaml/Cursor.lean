import Dotpath.Fault

/-!
# Positions in a YAML text

A cursor is what is left of a text together with the position reached.  Past the end it shows the
null character, which no text holds.
-/

namespace Dotpath.Yaml

/-- A line break of any kind. -/
def isBreak (c : Char) : Bool :=
  c == '\n' || c == '\r' || c.toNat == 0x85 || c.toNat == 0x2028 || c.toNat == 0x2029

/-- The end of the text. -/
def endMark : Char := Char.ofNat 0

/-- A line break or the end of the text. -/
def isLineEnd (c : Char) : Bool := c == endMark || isBreak c

/-- A space, a line break or the end of the text. -/
def isSpaceOrEnd (c : Char) : Bool := c == ' ' || isLineEnd c

/-- A space, a tab, a line break or the end of the text. -/
def isBlankOrEnd (c : Char) : Bool := c == ' ' || c == '\t' || isLineEnd c

/-- A letter or digit of ASCII, a hyphen or an underscore. -/
def isNameChar (c : Char) : Bool := c.isAlphanum || c == '-' || c == '_'

/-- A character that a YAML text may hold. -/
def isAllowed (c : Char) : Bool :=
  let n := Text.codePoint c
  n == 9 || n == 10 || n == 13 || (0x20 ≤ n && n ≤ 0x7e) || n == 0x85 ||
    (0xa0 ≤ n && n ≤ 0xfffd && !Text.isHalf n) || 0x10000 ≤ n

/-- A place in a text. -/
structure Cursor where
  rest : List Char
  index : Nat := 0
  line : Nat := 0
  column : Nat := 0
  deriving Repr, Inhabited

namespace Cursor

/-- The character `n` places ahead. -/
def peekAt (c : Cursor) (n : Nat) : Char := (c.rest[n]?).getD endMark

/-- The next character. -/
def peek (c : Cursor) : Char := c.rest.headD endMark

/-- Past the next character.  A carriage return before a line feed is no line of its own. -/
def advance (c : Cursor) : Cursor :=
  match c.rest with
  | [] => c
  | x :: rest =>
    let newLine := if x == '\r' then rest.headD endMark != '\n' else isBreak x
    if newLine then ⟨rest, c.index + 1, c.line + 1, 0⟩
    else ⟨rest, c.index + 1, c.line, if x.toNat = 0xfeff then c.column else c.column + 1⟩

/-- Past the next `n` characters. -/
def advanceBy (c : Cursor) : Nat → Cursor
  | 0 => c
  | n + 1 => c.advance.advanceBy n

/-- The next characters that pass a test, and the place after them. -/
def span (c : Cursor) (p : Char → Bool) : List Char × Cursor :=
  let found := c.rest.takeWhile p
  (found, c.advanceBy found.length)

/-- Past the next characters that pass a test. -/
def skip (c : Cursor) (p : Char → Bool) : Cursor := (c.span p).2

/-- The next line break, brought into one form, and the place after it. -/
def lineBreak (c : Cursor) : List Char × Cursor :=
  match c.rest with
  | '\r' :: '\n' :: _ => (['\n'], c.advanceBy 2)
  | x :: _ =>
    if x == '\n' || x == '\r' || x.toNat == 0x85 then (['\n'], c.advance)
    else if isBreak x then ([x], c.advance)
    else ([], c)
  | [] => ([], c)

/-- Whether a document mark of three equal characters starts here. -/
def isMark (c : Cursor) (x : Char) : Bool :=
  c.peek == x && c.peekAt 1 == x && c.peekAt 2 == x && isBlankOrEnd (c.peekAt 3)

/-- Whether one of the document marks starts here. -/
def isAnyMark (c : Cursor) : Bool := c.isMark '-' || c.isMark '.'

end Cursor

end Dotpath.Yaml

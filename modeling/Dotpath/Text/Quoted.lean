import Dotpath.Text.Printable

/-!
# Quoted text

The quoted form of a text and of a row of bytes, as messages show them: single quotes unless the
content holds a single quote and no double one, with backslash escapes for what is not printable.
-/

namespace Dotpath.Text

/-! ## Code points

A text is a row of code points.  The halves of surrogate pairs are code points too, but no
characters: 2048 characters for private use, from U+10D800 on, stand for them. -/

/-- How far the characters that stand for halves are from the code points of these. -/
def halfShift : Nat := 0x100000

/-- Whether a code point is a half of a surrogate pair. -/
def isHalf (n : Nat) : Bool := 0xd800 ≤ n && n < 0xe000

/-- The character of a code point. -/
def ofCodePoint (n : Nat) : Char := Char.ofNat (if isHalf n then n + halfShift else n)

/-- The code point of a character. -/
def codePoint (c : Char) : Nat :=
  if isHalf (c.toNat - halfShift) then c.toNat - halfShift else c.toNat

/-! ## Quotes -/

/-- The hexadecimal digits of `n` in small letters, padded with zeros to `width`. -/
def hex (width n : Nat) : List Char :=
  let ds := Nat.toDigits 16 n
  List.replicate (width - ds.length) '0' ++ ds

/-- The quote that encloses a text: the double one only if that avoids escapes. -/
def quoteFor (s : List Char) : Char :=
  if '\'' ∈ s ∧ '"' ∉ s then '"' else '\''

/-- A character inside quotes `quote`. -/
def quotedChar (quote c : Char) : List Char :=
  if c = quote ∨ c = '\\' then ['\\', c]
  else if c = '\n' then ['\\', 'n']
  else if c = '\r' then ['\\', 'r']
  else if c = '\t' then ['\\', 't']
  else if isPrintable c then [c]
  else
    let n := codePoint c
    if n < 0x100 then ['\\', 'x'] ++ hex 2 n
    else if n < 0x10000 then ['\\', 'u'] ++ hex 4 n
    else ['\\', 'U'] ++ hex 8 n

/-- The quoted form of a text. -/
def quoted (s : String) : String :=
  let cs := s.toList
  let q := quoteFor cs
  String.ofList (q :: (cs.flatMap (quotedChar q) ++ [q]))

/-- A byte inside quotes `quote`: only printable ASCII shows as itself. -/
def quotedByte (quote : Char) (b : UInt8) : List Char :=
  let c := Char.ofNat b.toNat
  if c = quote ∨ c = '\\' then ['\\', c]
  else if c = '\n' then ['\\', 'n']
  else if c = '\r' then ['\\', 'r']
  else if c = '\t' then ['\\', 't']
  else if 32 ≤ b.toNat ∧ b.toNat < 127 then [c]
  else ['\\', 'x'] ++ hex 2 b.toNat

/-- The quoted form of a row of bytes, marked by a leading `b`. -/
def quotedBytes (bs : List UInt8) : String :=
  let q := quoteFor (bs.map fun b => Char.ofNat b.toNat)
  String.ofList ('b' :: q :: (bs.flatMap (quotedByte q) ++ [q]))

/-- The parts with commas in between. -/
def commas (parts : List String) : String := String.intercalate ", " parts

end Dotpath.Text

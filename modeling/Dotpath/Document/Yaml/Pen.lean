import Dotpath.Document.Yaml.Cursor

/-!
# Writing YAML texts

A pen is the text written so far together with what the next piece has to know of it: the column,
and what stands at the end of the line.
-/

namespace Dotpath.Yaml

/-- A text that is being written. -/
structure Pen where
  /-- The pieces, the last one first. -/
  pieces : List String := []
  column : Nat := 0
  /-- A blank or the start of a line is before the pen. -/
  blank : Bool := true
  /-- Nothing but spaces and signs of blocks stand on the line. -/
  fresh : Bool := true
  /-- The text could go on after what was written last. -/
  unended : Bool := false

namespace Pen

/-- The column beyond which lines are broken. -/
def width : Nat := 80

/-- The written text. -/
def text (p : Pen) : String := String.join p.pieces.reverse

/-- Writes characters of a line. -/
def put (p : Pen) (s : List Char) : Pen :=
  { p with pieces := String.ofList s :: p.pieces, column := p.column + s.length }

/-- Writes a line break. -/
def lineBreak (p : Pen) (b : Char) : Pen :=
  { p with pieces := String.ofList [b] :: p.pieces, column := 0, blank := true, fresh := true }

/-- Starts a line at a column, unless the pen is on a fresh line before it. -/
def indentTo (p : Pen) (n : Nat) : Pen :=
  let p := if !p.fresh || p.column > n || (p.column == n && !p.blank) then p.lineBreak '\n' else p
  if p.column < n then { p.put (List.replicate (n - p.column) ' ') with blank := true } else p

/-- Writes a sign; `apart` asks for a blank before it, and `blank` says that it counts as one. -/
def sign (p : Pen) (s : String) (apart : Bool) (blank fresh : Bool := false) : Pen :=
  let p' := p.put (if p.blank || !apart then s.toList else ' ' :: s.toList)
  { p' with blank, fresh := p.fresh && fresh, unended := false }

/-- The pen in the middle of a line. -/
def inLine (p : Pen) : Pen := { p with blank := false, fresh := false }

/-- Whether the line is too long to go on. -/
def full (p : Pen) : Bool := p.column > width

end Pen

/-! ## Runs of a text -/

/-- A part of a text: blanks, line breaks, or neither. -/
inductive Run where
  | spaces (count : Nat)
  | breaks (cs : List Char)
  | word (cs : List Char)
  deriving DecidableEq, Repr

/-- A line break as texts in memory have it. -/
def isLineSeparator (c : Char) : Bool :=
  c == '\n' || c.toNat == 0x85 || c.toNat == 0x2028 || c.toNat == 0x2029

/-- A character put in front of runs. -/
def Run.cons (c : Char) : List Run → List Run
  | .spaces n :: rs => if c == ' ' then .spaces (n + 1) :: rs else single c :: .spaces n :: rs
  | .breaks cs :: rs =>
    if isLineSeparator c then .breaks (c :: cs) :: rs else single c :: .breaks cs :: rs
  | .word cs :: rs =>
    if c == ' ' || isLineSeparator c then single c :: .word cs :: rs else .word (c :: cs) :: rs
  | [] => [single c]
where
  /-- The run of one character. -/
  single (c : Char) : Run :=
    if c == ' ' then .spaces 1 else if isLineSeparator c then .breaks [c] else .word [c]

/-- The longest runs of a text. -/
def runs (cs : List Char) : List Run := cs.foldr Run.cons []

end Dotpath.Yaml

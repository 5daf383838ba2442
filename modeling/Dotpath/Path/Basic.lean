/-!
# Paths

A path is a sequence of segments that leads into nested values: `employees.3.address`.  A segment
is a text or null, and is put under no constraint, since it may be any mapping key.

A path is written as its segments joined by dots.  A dot inside a segment is written `^.`, and the
null segment `^0`; a circumflex before anything else stands for itself.  `Path.parse` reads the
written form and `Path.print` writes it.
-/

namespace Dotpath

/-- A segment of a path: a text, or null. -/
abbrev Segment := Option String

/-- A path: its segments, and the text it was read from if it was read. -/
structure Path where
  segments : List Segment
  written : Option String := none
  deriving Repr, Inhabited

/-- Puts a character in front of the first piece. -/
def consFirst (c : Char) : List (List Char) → List (List Char)
  | [] => [[c]]
  | p :: ps => (c :: p) :: ps

/-- Cuts a text at its unescaped dots and resolves the escaped ones. -/
def pieces : List Char → List (List Char)
  | [] => [[]]
  | '^' :: '.' :: rest => consFirst '.' (pieces rest)
  | '.' :: rest => [] :: pieces rest
  | c :: rest => consFirst c (pieces rest)

/-- The segment for a piece: `^0` is null. -/
def pieceSegment (p : List Char) : Segment :=
  if p = ['^', '0'] then none else some (String.ofList p)

/-- Reads the segments of a written path.  The empty text has none. -/
def parseSegments (text : String) : List Segment :=
  match text.toList with
  | [] => []
  | cs => (pieces cs).map pieceSegment

/-- A character inside a written segment. -/
def escapeChar (c : Char) : List Char := if c = '.' then ['^', '.'] else [c]

/-- The written form of one segment. -/
def escape : Segment → String
  | none => "^0"
  | some s => String.ofList (s.toList.flatMap escapeChar)

/-- The written form of a sequence of segments. -/
def printSegments (segments : List Segment) : String :=
  String.intercalate "." (segments.map escape)

namespace Path

/-- The path without segments. -/
def empty : Path := ⟨[], some ""⟩

/-- The path with the given segments; they are taken as they are. -/
def ofSegments (segments : List Segment) : Path :=
  if segments.isEmpty then empty else ⟨segments, none⟩

/-- Reads a written path. -/
def parse (text : String) : Path := ⟨parseSegments text, some text⟩

/-- The written form: the text the path was read from, or else the joined segments. -/
def print (p : Path) : String := p.written.getD (printSegments p.segments)

/-- The number of segments. -/
def size (p : Path) : Nat := p.segments.length

/-- Whether there are no segments. -/
def isEmpty (p : Path) : Bool := p.segments.isEmpty

@[simp] theorem segments_ofSegments (ss : List Segment) : (ofSegments ss).segments = ss := by
  cases ss <;> rfl

@[simp] theorem size_ofSegments (ss : List Segment) : (ofSegments ss).size = ss.length := by
  rw [size, segments_ofSegments]

/-- Paths are equal when their segments are, whatever text they were read from. -/
instance : BEq Path := ⟨fun p q => p.segments == q.segments⟩

theorem beq_iff {p q : Path} : (p == q) = true ↔ p.segments = q.segments := by
  change (p.segments == q.segments) = true ↔ p.segments = q.segments
  exact beq_iff_eq

end Path

/-- A segment that looks like an integer: ASCII digits after an optional minus sign. -/
def isIntegerSegment (s : Segment) : Bool :=
  match s.map String.toList with
  | none => false
  | some ('-' :: ds) => !ds.isEmpty && ds.all fun c => '0' ≤ c && c ≤ '9'
  | some ds => !ds.isEmpty && ds.all fun c => '0' ≤ c && c ≤ '9'

end Dotpath

import Dotpath.Path.Derived

/-!
# Given arguments

What a caller may hand over where a path, a segment or a list of segments is expected, and how
each is accepted or refused.
-/

namespace Dotpath

/-- An argument of a caller. -/
inductive Given where
  | null
  | text (s : String)
  | path (p : Path)
  /-- Several arguments in order. -/
  | items (type : String) (members : List Given)
  /-- Anything else, by the name of its type. -/
  | other (type : String)
  deriving Inhabited

namespace Given

/-- The name of an argument's type. -/
def typeName : Given → String
  | null => "NoneType"
  | text _ => "str"
  | path _ => "Path"
  | items t _ | other t => t

/-- An argument as a written path. -/
def parsed : Given → Except Fault Path
  | null => .error (.missing "path")
  | text s => .ok (Path.parse s)
  | g => .error (.notPathText g.typeName)

/-- An argument as a segment. -/
def segment : Given → Except Fault Segment
  | null => .ok none
  | text s => .ok (some s)
  | g => .error (.notSegment g.typeName)

/-- Several arguments as the segments of a path. -/
def ofSegments (segments : List Given) : Except Fault Path :=
  (segments.mapM segment).map Path.ofSegments

/-- One argument that holds the segments; the members of a text are its characters. -/
def segments : Given → Except Fault Path
  | null => .error (.missing "segments")
  | text s => .ok (Path.ofSegments (s.toList.map fun c => some (String.singleton c)))
  | path p => .ok (Path.ofSegments p.segments)
  | items _ members => ofSegments members
  | other t => .error (.notIterable t)

/-- An argument that is a path already. -/
def copied : Given → Except Fault Path
  | null => .error (.missing "other")
  | path p => .ok p.copy
  | g => .error (.noAttribute g.typeName "_segments")

/-- An argument to be appended: a path, or the text of one. -/
def appended : Given → Except Fault Path
  | null => .error (.missing "other")
  | path p => .ok p
  | text s => .ok (Path.parse s)
  | g => .error (.noAttribute g.typeName "_segments")

/-- An argument to be walked: a path, or the text of one. -/
def walked : Given → Except Fault Path
  | null => .error .missingPath
  | path p => .ok p
  | text s => .ok (Path.parse s)
  | g => .error (.notPath g.typeName)

end Given

end Dotpath

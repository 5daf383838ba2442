import Dotpath.Scalar.Reading
import Dotpath.Walk.Failure

/-!
# Mapping keys from segments

A mapping is looked up with the segment itself, unless a deserializer makes the key out of the
segment.
-/

namespace Dotpath

/-- What a deserializer makes of a segment. -/
inductive KeyResult where
  | key (k : Value)
  /-- A value of a type that cannot be a key. -/
  | unhashable (type : String)
  /-- The deserializer gives up. -/
  | rejected (reason : Option String)
  | raised (f : Fault)
  deriving Repr, Inhabited

/-- Makes the key for the segment of a path at an index. -/
abbrev Deserializer := Path → Int → KeyResult

/-- The segment as a mapping key. -/
def segmentKey : Segment → Value
  | none => .scalar .null
  | some s => .scalar (.text s)

/-- The key for integer-keyed mappings.  The null segment stays null. -/
def integerKeys : Deserializer := fun path i =>
  match path.segment i with
  | .error f => .raised f
  | .ok none => .key (.scalar .null)
  | .ok (some s) =>
    if isIntegerSegment (some s) then
      match parseInteger s with
      | .ok n => .key (.scalar (.int n))
      | .error f => .raised f
    else .rejected (some ("not an integer key: \"" ++ s ++ "\""))

/-- The deserializer that converts the text of a segment.  A wrong value or type makes it give up.
The null segment stays null. -/
def convertedKeys (convert : String → KeyResult) : Deserializer := fun path i =>
  match path.segment i with
  | .error f => .raised f
  | .ok none => .key (.scalar .null)
  | .ok (some s) =>
    match convert s with
    | .raised f =>
      if f.kind.isA .valueError || f.kind.isA .typeError then
        match f.message? with
        | some m => .rejected (some ("cannot convert \"" ++ s ++ "\" to map key: " ++ m))
        | none => .raised .unprintableInteger
      else .raised f
    | r => r

/-- The key as an integer. -/
def integerKey (s : String) : KeyResult :=
  match parseInteger s with
  | .ok n => .key (.scalar (.int n))
  | .error f => .raised f

/-- The key as a floating-point number. -/
def floatKey (s : String) : KeyResult :=
  match parseFloat s with
  | .ok x => .key (.scalar (.float x))
  | .error f => .raised f

/-- Fails at a segment. -/
def failAt {α : Type} (problem : Problem) (path : Path) (segment : Int)
    (cause : Option FaultKind) : Outcome α :=
  match Failure.at? problem path segment cause with
  | .ok f => .fail f
  | .error f => .escape f

/-- The result of a computation whose faults go through to the caller. -/
def Outcome.ofExcept {α : Type} : Except Fault α → Outcome α
  | .ok a => .done a
  | .error f => .escape f

/-- The mapping key for the segment of a path at an index. -/
def mapKey (keys : Option Deserializer) (path : Path) (i : Int) : Outcome Value :=
  match keys with
  | none => Outcome.ofExcept ((path.segment i).map segmentKey)
  | some d =>
    match d path i with
    | .key k => .done k
    | .unhashable type => failAt (.unhashableKey type) path i (some .typeError)
    | .rejected reason => failAt (.keyRejected reason) path i (some .keyDeserialization)
    | .raised f =>
      if f.kind.isA .keyDeserialization then
        failAt (.keyRejected f.reason?) path i (some .keyDeserialization)
      else .escape f

end Dotpath

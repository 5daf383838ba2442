import Dotpath.Graph.Text
import Dotpath.Path.Derived

/-!
# Failures

Why a path cannot be followed or written.  A failure says what is wrong, on which path and at which
segment, and which fault caused it, if one did.  `Failure.message` is its wording.

The outcome of a step is a result, a failure, or a fault that no walker catches.
-/

namespace Dotpath

namespace ErrorCode

/-- All codes. -/
def all : List ErrorCode :=
  [indexExpected, indexNotAllowed, indexOutOfBounds, noSuchProperty, noSuchKey,
    keyDeserializationFailed, emptySegment, terminalValue, typeNotSupported, typeMismatch,
    notModifiable, exception]

/-- A code by name. -/
def ofName (name : String) : Except Fault ErrorCode :=
  match all.find? (·.name == name) with
  | some c => .ok c
  | none => .error (.unknownCode name)

end ErrorCode

/-- What is wrong at a segment. -/
inductive Problem where
  /-- No accessible property of this name in the class. -/
  | noSuchProperty (owner : String)
  | noSuchKey
  | indexExpected
  | indexOutOfBounds
  /-- The path goes on past null. -/
  | nullValue
  /-- The path goes on past a value without structure. -/
  | terminalValue (type shown : String)
  | emptySegment
  | typeMismatch (message : String)
  | cannotAssign (type target : String)
  /-- The container refuses to be changed. -/
  | notModifiable (type : String)
  | keyRejected (reason : Option String)
  | unhashableKey (type : String)
  /-- Any other fault, as it shows itself. -/
  | unexpected (shown : String)
  deriving DecidableEq, Repr, Inhabited

/-- A failure at a segment of a path. -/
structure Failure where
  problem : Problem
  path : Path
  segment : Int
  /-- The kind of the fault that caused the failure. -/
  cause : Option FaultKind := none
  deriving Repr, Inhabited

namespace Problem

/-- The code of a problem. -/
def code : Problem → ErrorCode
  | noSuchProperty _ => .noSuchProperty
  | noSuchKey => .noSuchKey
  | indexExpected => .indexExpected
  | indexOutOfBounds => .indexOutOfBounds
  | nullValue | terminalValue .. => .terminalValue
  | emptySegment => .emptySegment
  | typeMismatch _ | cannotAssign .. => .typeMismatch
  | notModifiable _ => .notModifiable
  | keyRejected _ | unhashableKey _ => .keyDeserializationFailed
  | unexpected _ => .exception

/-- Whether the message names the segment, which then must exist. -/
def namesSegment : Problem → Bool
  | emptySegment | typeMismatch _ | cannotAssign .. | keyRejected (some _) | unexpected _ => false
  | _ => true

/-- Whether the message calls the path invalid, instead of telling a place on it. -/
def isInvalidPath : Problem → Bool
  | typeMismatch _ | cannotAssign .. | notModifiable _ | unexpected _ => false
  | _ => true

/-- The wording of a problem at a segment that shows as `name`. -/
def reason (name : String) : Problem → String
  | noSuchProperty owner => "no accessible property named \"" ++ name ++ "\" in " ++ owner
  | noSuchKey => "no such key: \"" ++ name ++ "\""
  | indexExpected => "array index expected; found: \"" ++ name ++ "\""
  | indexOutOfBounds => "index out of bounds: " ++ name
  | nullValue => "terminal value encountered at segment \"" ++ name ++ "\": None"
  | terminalValue type shown =>
    "terminal value encountered at segment \"" ++ name ++ "\": (" ++ type ++ ") " ++ shown
  | emptySegment => "segment must not be None or empty"
  | typeMismatch message => message
  | cannotAssign type target => "cannot assign " ++ type ++ " to " ++ target
  | notModifiable type =>
    type ++ " implementation encountered at segment \"" ++ name ++
      "\" appears to be unmodifiable"
  | keyRejected none => "failed to deserialize \"" ++ name ++ "\" into map key"
  | keyRejected (some reason) => reason
  | unhashableKey type => "cannot use " ++ type ++ " as map key for segment \"" ++ name ++ "\""
  | unexpected shown => "unexpected error *** " ++ shown

end Problem

namespace Failure

/-- A failure at a segment, which must exist if the message names it. -/
def at? (problem : Problem) (path : Path) (segment : Int) (cause : Option FaultKind) :
    Except Fault Failure :=
  if problem.namesSegment then do
    let _ ← path.segment segment
    return ⟨problem, path, segment, cause⟩
  else .ok ⟨problem, path, segment, cause⟩

/-- The code of a failure. -/
def code (f : Failure) : ErrorCode := f.problem.code

/-- The failure's segment as messages show it. -/
def segmentName (f : Failure) : String :=
  match f.path.segment f.segment with
  | .ok s => s.getD "None"
  | .error _ => ""

/-- The wording of a failure. -/
def message (f : Failure) : String :=
  let place := toString (f.segment + 1)
  let head :=
    if f.problem.isInvalidPath then
      "invalid path: \"" ++ f.path.print ++ "\" (segment " ++ place ++ ") *** "
    else "path " ++ f.path.print ++ ", segment " ++ place ++ ": "
  head ++ f.problem.reason f.segmentName

/-- The note that is left of a failure whose walker keeps quiet. -/
def note (f : Failure) : String := "Suppressed " ++ f.code.name ++ ": " ++ f.message

end Failure

/-- The outcome of a step or a walk. -/
inductive Outcome (α : Type) where
  | done (value : α)
  | fail (f : Failure)
  /-- A fault that goes through to the caller. -/
  | escape (f : Fault)
  deriving Repr, Inhabited

namespace Outcome

/-- Goes on with the result, if there is one. -/
def bind {α β : Type} (x : Outcome α) (f : α → Outcome β) : Outcome β :=
  match x with
  | done a => f a
  | fail e => fail e
  | escape e => escape e

instance : Monad Outcome where
  pure := done
  bind := bind

end Outcome

end Dotpath

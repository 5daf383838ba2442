import Dotpath.Walk.Kind
import Dotpath.Scalar.Text
import Dotpath.Fault

/-!
# Handlers

The handler of a step is looked up by the kind of container.  A registry holds at most one handler
for a kind and lists its handlers in the order of registration.
-/

namespace Dotpath

/-- The name of the handler that reads or writes containers of a kind. -/
def handlerName (writing : Bool) (kind : ContainerKind) : String :=
  kind.handlerStem ++ "Segment" ++ (if writing then "Writer" else "Reader")

/-- A handler as it shows itself. -/
def handlerText (name : String) (strict : Bool) : String :=
  name ++ "(suppress_exceptions=" ++ boolText (!strict) ++ ")"

/-- The handlers of one role, by kind. -/
structure Registry where
  role : String
  handlers : List (ContainerKind × String) := []
  deriving Repr, Inhabited

namespace Registry

/-- The handler for a kind. -/
def get (r : Registry) (kind : ContainerKind) : Except Fault String :=
  match r.handlers.lookup kind with
  | some n => .ok n
  | none => .error (.noHandler r.role kind.name)

/-- Whether there is a handler for a kind. -/
def has (r : Registry) (kind : ContainerKind) : Bool := (r.handlers.lookup kind).isSome

/-- The registry with a handler for a kind that has none yet. -/
def register (r : Registry) (kind : ContainerKind) (name : String) : Except Fault Registry :=
  if r.has kind then .error (.handlerTaken r.role kind.name)
  else .ok { r with handlers := r.handlers ++ [(kind, name)] }

/-- One configured handler for every registered kind, as they show themselves. -/
def build (r : Registry) (strict : Bool) : List String :=
  r.handlers.map fun (_, n) => handlerText n strict

end Registry

end Dotpath

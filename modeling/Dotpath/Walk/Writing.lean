import Dotpath.Walk.Reading

/-!
# Writing along a path

A write walks to the parent of the place that the path denotes and assigns the value there.  It
changes one item or key, or what the setter of a property stores.  A write that fails leaves the heap
as the walk has left it, apart from what a setter has stored before it raised an error.
-/

namespace Dotpath

/-- The faults by which containers refuse to be changed. -/
def FaultKind.isRefusal (kind : FaultKind) : Bool :=
  kind.isA .typeError || kind.isA .notImplemented || kind.isA .attributeError

/-- The faults by which an array refuses a value. -/
def FaultKind.isMismatch (kind : FaultKind) : Bool :=
  kind.isA .typeError || kind.isA .valueError || kind.isA .overflowError

/-- The index of the last segment of a path. -/
def Path.lastIndex (p : Path) : Int := (p.size : Int) - 1

namespace Heap

/-- The index that the last segment of a path denotes, if the container has such a member. -/
def lastMember (h : Heap) (v : Value) (path : Path) : Outcome Nat := do
  let n ← indexAt path path.lastIndex
  let size ← Outcome.ofExcept (h.length v)
  if n < size then return n else failAt .indexOutOfBounds path path.lastIndex none

/-- The result of an assignment to a container that may refuse it. -/
def accepted (h : Heap) (v : Value) (path : Path) (r : Except Fault Heap) : Outcome Heap :=
  match r with
  | .ok h' => .done h'
  | .error f =>
    if f.kind.isRefusal then
      failAt (.notModifiable (h.typeName v)) path path.lastIndex (some f.kind)
    else .escape f

/-- Fails because an array does not take a value. -/
def unassignable (h : Heap) (v : Value) (path : Path) (x : Value) (cause : Option FaultKind) :
    Outcome Heap :=
  failAt (.cannotAssign (h.typeName x) (h.elementName v)) path path.lastIndex cause

/-- Whether an array takes a value.  Plain arrays check a value only when it is assigned. -/
def takes (h : Heap) (v x : Value) : Bool :=
  match h.grid? v with
  | some (t, _) => t.accepts x
  | none => true

/-- Whether the elements of an array can be changed. -/
def isWriteable (h : Heap) (v : Value) : Bool :=
  match v with
  | .ref a | .row a _ _ => match h.get? a with
    | some (.grid _ _ _ writeable) => writeable
    | _ => true
  | _ => true

/-- Replaces a member of a sequence. -/
def putMember (h : Heap) (v : Value) (path : Path) (x : Value) : Outcome Heap := do
  let n ← h.lastMember v path
  h.accepted v path (h.setItem v n x)

/-- Replaces a member of an array of texts or references: the value is checked first. -/
def putElement (h : Heap) (v : Value) (path : Path) (x : Value) : Outcome Heap := do
  if !h.takes v x then h.unassignable v path x none
  else
    let n ← h.lastMember v path
    if !h.isWriteable v then failAt (.notModifiable (h.typeName v)) path path.lastIndex none
    else match h.setItem v n x with
      | .ok h' => return h'
      | .error f =>
        if f.kind.isA .valueError then h.unassignable v path x (some f.kind) else .escape f

/-- Replaces a member of an array of machine values: the index is checked first. -/
def putMachine (h : Heap) (v : Value) (path : Path) (x : Value) : Outcome Heap := do
  let n ← h.lastMember v path
  if !h.isWriteable v then failAt (.notModifiable (h.typeName v)) path path.lastIndex none
  else if !h.takes v x then h.unassignable v path x none
  else match h.setItem v n x with
    | .ok h' => return h'
    | .error f => if f.kind.isMismatch then h.unassignable v path x (some f.kind) else .escape f

/-- Stores a value under a key of a mapping. -/
def putKeyed (h : Heap) (keys : Option Deserializer) (v : Value) (path : Path) (x : Value) :
    Outcome Heap := do
  let k ← mapKey keys path path.lastIndex
  h.accepted v path (h.setKey v k x)

/-- The failure that a fault of an assignment to a property leads to. -/
def assignmentFault {α : Type} (σ : Schema) (h : Heap) (v : Value) (path : Path) (i : Int)
    (f : Fault) : Outcome α :=
  if f.kind = .illegalAssignment then
    match f.message? with
    | some message => failAt (.typeMismatch message) path i (some f.kind)
    | none => .escape .unprintableInteger
  else h.propertyFault σ v path i f

/-- Assigns a property of an object. -/
def putProperty (σ : Schema) (h : Heap) (v : Value) (path : Path) (x : Value) : Outcome Heap := do
  let name ← nameAt path path.lastIndex
  match h.writeProperty σ v (some name) x with
  | .ok h' => return h'
  | .error (f, h') => h'.assignmentFault σ v path path.lastIndex f

/-- The heap that an assignment to a property leaves where it fails. -/
def leftByProperty (σ : Schema) (h : Heap) (v : Value) (path : Path) (x : Value) : Heap :=
  match nameAt path path.lastIndex with
  | .done name => heapLeft (h.writeProperty σ v (some name) x)
  | .fail _ | .escape _ => h

/-- Assigns at the last segment of a path within a container of a given kind. -/
def putInto (σ : Schema) (h : Heap) (keys : Option Deserializer) (kind : ContainerKind) (v : Value)
    (path : Path) (x : Value) : Outcome Heap :=
  match kind with
  | .sequence => h.putMember v path x
  | .array => h.putElement v path x
  | .primitiveArray => h.putMachine v path x
  | .mapping => h.putKeyed keys v path x
  | .object => h.putProperty σ v path x

/-- Assigns at the last segment of a path within a container. -/
def put (σ : Schema) (h : Heap) (keys : Option Deserializer) (v : Value) (path : Path) (x : Value) :
    Outcome Heap :=
  h.putInto σ keys (h.classify v) v path x

/-- The heap that an assignment within a container of a given kind leaves where it fails. -/
def leftByPutInto (σ : Schema) (h : Heap) (kind : ContainerKind) (v : Value) (path : Path)
    (x : Value) : Heap :=
  match kind with
  | .object => h.leftByProperty σ v path x
  | _ => h

/-- The heap that an assignment within a container leaves where it fails. -/
def leftByPut (σ : Schema) (h : Heap) (v : Value) (path : Path) (x : Value) : Heap :=
  h.leftByPutInto σ (h.classify v) v path x

/-- The value that holds the place a path denotes, and the segment that leads to it. -/
def parentOf (σ : Schema) (h : Heap) (keys : Option Deserializer) (host : Value) (path : Path) :
    Outcome (Value × Int) :=
  match path.parent? with
  | none => .escape .emptyTarget
  | some parent =>
    if path.size = 1 then .done (host, 0)
    else do return (← h.walk σ keys host parent 0, parent.lastIndex)

/-- The heap that the walk to the parent leaves. -/
def leftByParent (σ : Schema) (h : Heap) (keys : Option Deserializer) (host : Value) (path : Path) :
    Heap :=
  match path.parent? with
  | none => h
  | some parent => if path.size = 1 then h else h.leftByWalk σ keys host parent 0

/-- Assigns the value at the end of a path. -/
def write (σ : Schema) (h : Heap) (keys : Option Deserializer) (host : Value) (path : Path)
    (x : Value) : Outcome Heap := do
  let (target, segment) ← h.parentOf σ keys host path
  if target.isNull then failAt .nullValue path segment none
  else (h.leftByParent σ keys host path).put σ keys target path x

/-- The heap that a write leaves where it fails. -/
def leftByWrite (σ : Schema) (h : Heap) (keys : Option Deserializer) (host : Value) (path : Path)
    (x : Value) : Heap :=
  let h' := h.leftByParent σ keys host path
  match h.parentOf σ keys host path with
  | .done (target, _) => if target.isNull then h' else h'.leftByPut σ target path x
  | .fail _ | .escape _ => h'

/-- The failure of another walker that stops the walk to the parent: a deserializer has let it
out. -/
def relayed? (σ : Schema) (h : Heap) (keys : Option Deserializer) (host : Value) (path : Path) :
    Option (ErrorCode × Fault) :=
  match h.parentOf σ keys host path with
  | .escape f => f.walkerCode?.map (·, f)
  | .done _ | .fail _ => none

end Heap

end Dotpath

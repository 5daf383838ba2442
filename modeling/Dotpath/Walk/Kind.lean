import Dotpath.Graph.Members

/-!
# Kinds of container

A step of a walk depends on the kind of container it arrives at.  The tests are made in a fixed
order, so a value that passes more than one of them has the first kind; everything else, texts and
numbers too, is taken for an object.
-/

namespace Dotpath

/-- The kinds of container. -/
inductive ContainerKind where
  | sequence | array | mapping | primitiveArray | object
  deriving DecidableEq, Repr, Inhabited

namespace ContainerKind

/-- The name of a kind. -/
def name : ContainerKind → String
  | sequence => "sequence"
  | array => "array"
  | mapping => "mapping"
  | primitiveArray => "primitive_array"
  | object => "object"

/-- The kinds in the order in which handlers are listed. -/
def all : List ContainerKind := [sequence, array, primitiveArray, mapping, object]

/-- A kind by name. -/
def ofName? (name : String) : Option ContainerKind := all.find? (·.name == name)

/-- The first part of the name of a kind's handlers. -/
def handlerStem : ContainerKind → String
  | sequence => "Sequence"
  | array => "Array"
  | mapping => "Mapping"
  | primitiveArray => "PrimitiveArray"
  | object => "Object"

end ContainerKind

namespace Heap

/-- Whether a value is an ordered, or at least iterable and sized, container of values. -/
def isSequence (h : Heap) : Value → Bool
  | .tuple _ | .named .. | .frozenSet _ | .range .. => true
  | .ref a => match h.get? a with
    | some (.list _) | some (.deque _) | some (.set _) | some (.view ..) | some (.seqMap _)
    | some (.userSeq ..) => true
    | _ => false
  | _ => false

/-- The element type and the shape of an array, or of a row of one. -/
def grid? (h : Heap) : Value → Option (ElementType × List Nat)
  | .ref a => match h.get? a with
    | some (.grid t shape _ _) => some (t, shape)
    | _ => none
  | .row a _ shape => match h.get? a with
    | some (.grid t _ _ _) => some (t, shape)
    | _ => none
  | _ => none

/-- Whether a value is an array of texts or references. -/
def isArray (h : Heap) (v : Value) : Bool :=
  match h.grid? v with
  | some (t, shape) => !shape.isEmpty && t.isReference
  | none => false

/-- Whether a value is a keyed container. -/
def isMapping (h : Heap) : Value → Bool
  | .ref a => match h.get? a with
    | some (.dict ..) | some (.proxy _) | some (.chain _) | some (.userMap ..)
    | some (.seqMap _) => true
    | _ => false
  | _ => false

/-- Whether a value is an array of machine values. -/
def isPrimitiveArray (h : Heap) (v : Value) : Bool :=
  match h.grid? v with
  | some (t, shape) => !shape.isEmpty && !t.isReference
  | none => match v with
    | .ref a => match h.get? a with
      | some (.byteArray _) | some (.cells ..) => true
      | _ => false
    | _ => false

/-- The kind of a value. -/
def classify (h : Heap) (v : Value) : ContainerKind :=
  if h.isSequence v then .sequence
  else if h.isArray v then .array
  else if h.isMapping v then .mapping
  else if h.isPrimitiveArray v then .primitiveArray
  else .object

/-- The element type of an array as messages name it. -/
def elementName (h : Heap) (v : Value) : String :=
  match h.grid? v with
  | some (t, _) => t.name ++ " array"
  | none => match v with
    | .ref a => match h.get? a with
      | some (.cells code _) => "'" ++ String.singleton code ++ "' array"
      | _ => h.typeName v
    | v => h.typeName v

end Heap

end Dotpath

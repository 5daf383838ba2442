import Dotpath.Graph.Entries
import Dotpath.Schema.Basic

/-!
# Assignable values

Whether a value may be assigned where a type is declared.  A class alone accepts its instances, and
the wider number types accept the narrower ones.  Any other annotation is strict: numbers are not
taken for each other unless nothing can be lost, and the parts of containers are checked.
-/

namespace Dotpath

/-- The built-in classes that a scalar is an instance of. -/
def Scalar.classes : Scalar → List String
  | .bool _ => ["bool", "int"]
  | .text _ => ["str", "Sequence"]
  | .bytes _ => ["bytes", "Sequence"]
  | .memory _ => ["memoryview", "Sequence"]
  | .dateTime _ _ => ["datetime", "date"]
  | .machine "float64" _ => ["float64", "float"]
  | .machine "complex128" _ => ["complex128", "complex"]
  | .machine "str_" _ => ["str_", "str", "Sequence"]
  | .machine "bytes_" _ => ["bytes_", "bytes", "Sequence"]
  | .machine type _ => [type]
  | s => [s.typeName]

/-- The classes that a node is an instance of. -/
def Node.classes (σ : Schema) : Node → List String
  | .list _ => ["list", "Sequence"]
  | .deque _ => ["deque", "Sequence"]
  | .set _ => ["set"]
  | .dict t _ => [t.name, "dict", "Mapping"]
  | .view p _ => [p.name]
  | .proxy _ => ["mappingproxy", "Mapping"]
  | .chain _ => ["ChainMap", "Mapping"]
  | .userMap .. => ["UserMap", "Mapping"]
  | .seqMap _ => ["SeqMap", "Mapping", "Sequence"]
  | .userSeq .. => ["UserSeq", "Sequence"]
  | .byteArray _ => ["bytearray", "Sequence"]
  | .cells .. => ["array", "Sequence"]
  | .grid .. => ["ndarray"]
  | .object c _ => σ.lineageNames c ++ (if σ.isModel c then ["BaseModel"] else [])

/-- The classes that a value is an instance of, except the class of all values. -/
def Heap.classes (σ : Schema) (h : Heap) : Value → List String
  | .scalar s => s.classes
  | .tuple _ => ["tuple", "Sequence"]
  | .named t _ _ => [t, "tuple", "Sequence"]
  | .frozenSet _ => ["frozenset"]
  | .range .. => ["range", "Sequence"]
  | .row .. => ["ndarray"]
  | .ref a => ((h.get? a).map (Node.classes σ)).getD []

/-- Whether a value is an instance of a class. -/
def Heap.isInstance (σ : Schema) (h : Heap) (v : Value) (type : String) : Bool :=
  type == "object" || (h.classes σ v).contains type

/-- Whether an integer is small enough for a floating-point number. -/
def fitsBinary64 (n : Int) : Bool := (Binary64.ofInt? n).isSome

/-- Whether a scalar is a number that a strict floating-point attribute accepts. -/
def Scalar.isStrictFloat : Scalar → Bool
  | .int n => fitsBinary64 n
  | .float _ | .decimal _ | .fraction _ => true
  | .machine _ (.int n) => fitsBinary64 n
  | .machine _ (.float _) | .machine _ (.bool _) => true
  | _ => false

/-- Whether a value is of a class in the strict sense: a truth value is no integer and a moment is
no date. -/
def Heap.isStrictInstance (σ : Schema) (h : Heap) (v : Value) (type : String) : Bool :=
  match type, v with
  | "int", .scalar (.int _) => true
  | "int", _ => false
  | "float", .scalar s => s.isStrictFloat
  | "float", _ => false
  | "date", .scalar (.date _) => true
  | "date", _ => false
  | t, v => h.isInstance σ v t

/-- The members of a list, a set or a tuple that an annotation describes. -/
def Heap.listItems? (h : Heap) : Value → Option (List Value)
  | .ref a => match h.get? a with
    | some (.list items) => some items
    | _ => none
  | _ => none

/-- The members of a changeable set. -/
def Heap.setItems? (h : Heap) : Value → Option (List Value)
  | .ref a => match h.get? a with
    | some (.set items) => some items
    | _ => none
  | _ => none

/-- The pairs of a dictionary of any type. -/
def Heap.dictEntries? (h : Heap) : Value → Option Entries
  | .ref a => match h.get? a with
    | some (.dict _ es) => some es
    | _ => none
  | _ => none

/-- The members of a tuple. -/
def tupleItems? : Value → Option (List Value)
  | .tuple items | .named _ _ items => some items
  | _ => none

mutual

/-- The strict check of a value against an annotation. -/
def Heap.conforms (σ : Schema) (h : Heap) : Annotation → Value → Bool
  | .any, _ => true
  | .null, v => v == .scalar .null
  | .named t, v => h.isStrictInstance σ v t
  | .union members _, v => conformsSome σ h members v
  | .list a, v => match h.listItems? v with
    | some items => items.all fun i => h.conforms σ a i
    | none => false
  | .set a, v => match h.setItems? v with
    | some items => items.all fun i => h.conforms σ a i
    | none => false
  | .dict k a, v => match h.dictEntries? v with
    | some es => es.all fun e => h.conforms σ k e.1 && h.conforms σ a e.2
    | none => false
  | .tuple as, v => match tupleItems? v with
    | some items => conformsEach σ h as items
    | none => false
  | .tupleOf a, v => match tupleItems? v with
    | some items => items.all fun i => h.conforms σ a i
    | none => false
  | .literal values, v => values.any fun l => (Value.scalar l).equal v
  | .remarked _, _ | .forward _, _ => true

/-- The check against one of several annotations. -/
def Heap.conformsSome (σ : Schema) (h : Heap) : List Annotation → Value → Bool
  | [], _ => false
  | a :: as, v => h.conforms σ a v || conformsSome σ h as v

/-- The check of the members of a tuple, each against its own annotation. -/
def Heap.conformsEach (σ : Schema) (h : Heap) : List Annotation → List Value → Bool
  | [], [] => true
  | a :: as, v :: vs => h.conforms σ a v && conformsEach σ h as vs
  | _, _ => false

end

/-- Whether a value may be assigned where an annotation is declared. -/
def Heap.isAssignable (σ : Schema) (h : Heap) (declared : Option Annotation) (v : Value) :
    Bool :=
  match declared with
  | none => true
  | some a =>
    if a.isOpaque then true
    else match a with
      | .named t =>
        h.isInstance σ v t || (t == "float" && h.isInstance σ v "int") ||
          (t == "complex" && (h.isInstance σ v "int" || h.isInstance σ v "float"))
      | a => h.conforms σ a v

end Dotpath

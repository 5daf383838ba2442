import Dotpath.Array.Element
import Dotpath.Fault
import Dotpath.Graph.Value

/-!
# The heap

Everything that can change is a node of the heap: sequences, mappings, arrays and objects.  Views
and wrappers are nodes too, and hold the address of the dictionary they show.  Two values that hold
one address are the same container, so a change through either is seen through both.

The laws `get?_set_self` and `get?_set_ne` say that `set` changes one node.
-/

namespace Dotpath

/-- The stored pairs of a dictionary, in the order in which the keys came in. -/
abbrev Entries := List (Value × Value)

/-- The types of dictionary. -/
inductive DictType where
  | plain
  | ordered
  /-- With a default for missing keys, which look-ups do not use. -/
  | defaulting
  deriving DecidableEq, Repr, Inhabited

/-- The part of a dictionary that a view shows. -/
inductive ViewPart where
  | keys | values | items
  deriving DecidableEq, Repr, Inhabited

/-- A node of the heap. -/
inductive Node where
  | list (items : List Value)
  | deque (items : List Value)
  | set (items : List Value)
  | dict (type : DictType) (entries : Entries)
  | view (part : ViewPart) (dict : Address)
  /-- A dictionary that cannot be changed through this node. -/
  | proxy (dict : Address)
  /-- Several mappings, searched in order and changed in the first. -/
  | chain (dicts : List Address)
  /-- A mapping of another type over a mapping.  It may refuse assignments, and asking for one of the
  barred keys raises a fault. -/
  | userMap (dict : Address) (refusal : Option FaultKind) (barred : List (Scalar × Fault))
  /-- A mapping that is a sequence of its keys too. -/
  | seqMap (dict : Address)
  /-- A sequence of another type, with the length it claims.  It may refuse assignments, and running
through it may break off with a fault after so many members. -/
  | userSeq (items : List Value) (claimed : Option Int) (refusal : Option FaultKind)
    (break? : Option (Nat × Fault))
  | byteArray (bytes : List UInt8)
  /-- A plain array with its one-letter code. -/
  | cells (code : Char) (items : List Scalar)
  /-- An array of any number of dimensions, its elements in row order. -/
  | grid (element : ElementType) (shape : List Nat) (items : List Value) (writeable : Bool)
  /-- An instance of a class of the schema, with its stored attributes. -/
  | object (type : String) (attrs : List (String × Value))
  deriving Repr, Inhabited, BEq

/-- The nodes, by address. -/
structure Heap where
  nodes : Array Node := #[]
  deriving Repr, Inhabited

/-- Raised where a value is computed from itself. -/
def endlessText : Fault := .endless "maximum recursion depth exceeded"

namespace Heap

/-- The node at an address. -/
def get? (h : Heap) (a : Address) : Option Node := h.nodes[a]?

/-- The heap with another node at an address that is in use. -/
def set (h : Heap) (a : Address) (n : Node) : Heap := ⟨h.nodes.setIfInBounds a n⟩

/-- The heap with a new node, and its address. -/
def alloc (h : Heap) (n : Node) : Heap × Address := (⟨h.nodes.push n⟩, h.nodes.size)

theorem get?_set_self {h : Heap} {a : Address} {m : Node} (n : Node) (hm : h.get? a = some m) :
    (h.set a n).get? a = some n := by
  have ha : a < h.nodes.size := (Array.getElem?_eq_some_iff.1 hm).1
  simp [get?, set, ha]

theorem get?_set_ne {h : Heap} {a b : Address} (n : Node) (hab : a ≠ b) :
    (h.set a n).get? b = h.get? b := by
  simp [get?, set, Array.getElem?_setIfInBounds_ne hab]

end Heap

/-- The name of a dictionary's type. -/
def DictType.name : DictType → String
  | plain => "dict"
  | ordered => "OrderedDict"
  | defaulting => "defaultdict"

/-- The name of a view's type. -/
def ViewPart.name : ViewPart → String
  | keys => "dict_keys"
  | values => "dict_values"
  | items => "dict_items"

/-- The name of a node's type. -/
def Node.typeName : Node → String
  | list _ => "list"
  | deque _ => "deque"
  | set _ => "set"
  | dict t _ => t.name
  | view p _ => p.name
  | proxy _ => "mappingproxy"
  | chain _ => "ChainMap"
  | userMap .. => "UserMap"
  | seqMap _ => "SeqMap"
  | userSeq .. => "UserSeq"
  | byteArray _ => "bytearray"
  | cells .. => "array"
  | grid .. => "ndarray"
  | object c _ => c

/-- The name of a value's type. -/
def Heap.typeName (h : Heap) : Value → String
  | .scalar s => s.typeName
  | .tuple _ => "tuple"
  | .named t _ _ => t
  | .frozenSet _ => "frozenset"
  | .range .. => "range"
  | .row .. => "ndarray"
  | .ref a => ((h.get? a).map Node.typeName).getD "object"

/-- The name of a value's type as faults show it. -/
def Heap.faultTypeName (h : Heap) : Value → String
  | .scalar (.machine type _) => "numpy." ++ type
  | v => Dotpath.faultTypeName (h.typeName v)

end Dotpath

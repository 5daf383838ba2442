import Dotpath.Document.Yaml.Meaning
import Dotpath.Document.Yaml.Node
import Dotpath.Graph.Entries

/-!
# Reading YAML

Turns the nodes of a document into values on the heap.  A collection is put on the heap empty and
filled later, in the order in which the collections were met, so that nodes which are part of
themselves become containers which hold themselves.  A node that several others share becomes one
value.
-/

namespace Dotpath.Yaml

/-- How far the values of a document have been made. -/
structure Building where
  heap : Heap
  nodes : Array Node
  /-- The values of nodes. -/
  made : List (NodeId × Value) := []
  /-- The collections that are still empty. -/
  waiting : List (NodeId × Address) := []

/-- A step of making values. -/
abbrev Build := StateT Building (Except Fault)

/-- A key of a mapping, with the node that made it, or with none if it is the value of documents that
is no number.  A value is one key with itself, even if it is not equal to itself. -/
structure Key where
  source : Option NodeId
  value : Value

namespace Key

/-- Whether two keys are one. -/
def same (k l : Key) : Bool := k.source == l.source || k.value.equal l.value

/-- The pairs with a value assigned to a key. -/
def put : List (Key × Value) → Key → Value → List (Key × Value)
  | [], k, v => [(k, v)]
  | e :: es, k, v => if e.1.same k then (e.1, v) :: es else e :: put es k v

/-- The pairs without the sources of their keys. -/
def withoutSources (es : List (Key × Value)) : Entries := es.map fun e => (e.1.value, e.2)

/-- The dictionary of pairs, where a later pair replaces the value of an earlier one. -/
def entries (pairs : List (Key × Value)) : Entries :=
  withoutSources (pairs.foldl (fun es e => put es e.1 e.2) [])

end Key

namespace Build

/-- The document cannot be made into values. -/
def fail {α : Type} : Build α := throw .document

/-- A node by its number. -/
def node (i : NodeId) : Build Node := do
  return ((← get).nodes[i]?).getD default

/-- The tag of a node. -/
def tagOf (i : NodeId) : Build Tag := do return (← node i).tag

/-- Whether a pair merges a mapping into its own. -/
def merges (p : NodeId × NodeId) : Build Bool := do return (← tagOf p.1) == .merge

/-- The pairs of a mapping. -/
def pairsOf (i : NodeId) : Build (List (NodeId × NodeId)) := do
  match (← node i).content with
  | .mapping pairs => return pairs
  | _ => fail

/-- Gives a mapping other pairs. -/
def setPairs (i : NodeId) (pairs : List (NodeId × NodeId)) : Build Unit :=
  modify fun s => { s with nodes := s.nodes.modify i ({ · with content := .mapping pairs }) }

/-- Splits pairs at the first that merges. -/
def splitMerge : List (NodeId × NodeId) →
    Build (List (NodeId × NodeId) × Option NodeId × List (NodeId × NodeId))
  | [] => return ([], none, [])
  | p :: ps => do
    if ← merges p then return ([], some p.2, ps)
    else
      let (before, target, rest) ← splitMerge ps
      return (p :: before, target, rest)

/-- Makes a key of default values an ordinary text. -/
def plainKey (i : NodeId) : Build Unit := do
  if (← tagOf i) == .value then
    modify fun s => { s with nodes := s.nodes.modify i ({ · with tag := .str }) }

mutual

/-- Puts the pairs of merged mappings in front of a mapping's own.  `merged` are those found
before. -/
def flatten (i : NodeId) (merged : List (NodeId × NodeId)) : (fuel : Nat) → Build Unit
  | 0 => fail
  | fuel + 1 => do
    let (before, target, rest) ← splitMerge (← pairsOf i)
    match target with
    | none =>
      for (k, _) in before do plainKey k
      setPairs i (merged ++ before)
    | some t =>
      setPairs i (before ++ rest)
      let more ← match (← node t).content with
        | .mapping _ => flattened t fuel
        | .sequence items => do
          let parts ← flattenedAll items fuel
          pure parts.reverse.flatten
        | .scalar _ => fail
      flatten i (merged ++ more) fuel

/-- The pairs of a mapping with those of its merged mappings. -/
def flattened (i : NodeId) : (fuel : Nat) → Build (List (NodeId × NodeId))
  | 0 => fail
  | fuel + 1 => do
    flatten i [] fuel
    pairsOf i

/-- The pairs of several mappings. -/
def flattenedAll (items : List NodeId) : (fuel : Nat) → Build (List (List (NodeId × NodeId)))
  | 0 => fail
  | fuel + 1 => do
    match items with
    | [] => return []
    | i :: items => do
      let pairs ← flattened i fuel
      return pairs :: (← flattenedAll items fuel)

end

/-- Steps that are enough to merge all mappings: no chain of steps handles a pair or an item of a
sequence more often than there are pairs. -/
def mergeFuel : Build Nat := do
  let nodes := (← get).nodes
  let size := nodes.foldl (fun n x => match x.content with
    | .scalar _ => n + 1
    | .sequence items => n + items.length + 1
    | .mapping pairs => n + 3 * pairs.length + 1) 2
  return size * size

/-- The text of a scalar, or of a mapping's default value. -/
def textOf (i : NodeId) : (fuel : Nat) → Build String
  | 0 => throw (.endless "maximum recursion depth exceeded")
  | fuel + 1 => do
    match (← node i).content with
    | .scalar text => return text
    | .sequence _ => fail
    | .mapping pairs =>
      match ← pairs.findM? fun (k, _) => do return (← tagOf k) == .value with
      | some (_, v) => textOf v fuel
      | none => fail

/-- Puts an empty collection on the heap. -/
def allocEmpty (i : NodeId) (n : Dotpath.Node) : Build Value := do
  let s ← get
  let (heap, a) := s.heap.alloc n
  set { s with heap, waiting := s.waiting ++ [(i, a)] }
  return .ref a

/-- The value of a node that has none yet. -/
def make (i : NodeId) : Build Value := do
  let n ← node i
  match n.tag with
  | .seq | .omap | .pairs => allocEmpty i (.list [])
  | .map => allocEmpty i (.dict .plain [])
  | .set => allocEmpty i (.set [])
  | tag =>
    match tag.scalar? "" with
    | none => fail
    | some _ =>
      let text ← textOf i ((← get).nodes.size + 1)
      match n.content, tag, tag.scalar? text with
      | .mapping _, .timestamp, _ =>
        throw (.raised .typeError
          [.scalar (.text "expected string or bytes-like object, got 'list'")])
      | _, _, some (.ok s) => return .scalar s
      | _, _, some (.error f) => throw f
      | _, _, none => fail

/-- The value of a node. -/
def value (i : NodeId) : Build Value := do
  match (← get).made.lookup i with
  | some v => return v
  | none =>
    let v ← make i
    modify fun s => { s with made := (i, v) :: s.made }
    return v

/-- The node that makes a key, unless the key is the value of documents that is no number. -/
def sourceOf (i : NodeId) : Build (Option NodeId) := do
  match ← node i with
  | { tag := .float, content := .scalar text } =>
    return if isUndefinedText text then none else some i
  | _ => return some i

/-- The pairs of a mapping as keys and values.  A container that can change is no key. -/
def entries (i : NodeId) : Build Entries := do
  match (← node i).content with
  | .mapping _ =>
    let pairs ← flattened i (← mergeFuel)
    let es ← pairs.mapM fun (k, v) => do
      let key ← value k
      match key with
      | .ref _ => fail
      | _ =>
        let source ← sourceOf k
        return ({ source, value := key : Key }, ← value v)
    return Key.entries es
  | _ => fail

/-- The only pair of a mapping as a tuple. -/
def singlePair (i : NodeId) : Build Value := do
  match (← node i).content with
  | .mapping [(k, v)] =>
    let key ← value k
    return .tuple [key, ← value v]
  | _ => fail

/-- The items of a sequence. -/
def items (f : NodeId → Build Value) (i : NodeId) : Build (List Value) := do
  match (← node i).content with
  | .sequence ids => ids.mapM f
  | _ => fail

/-- What belongs into the empty collection of a node. -/
def contents (i : NodeId) : Build Dotpath.Node := do
  match ← tagOf i with
  | .seq => return .list (← items value i)
  | .map => return .dict .plain (← entries i)
  | .set => return .set (Entries.keys (← entries i))
  | _ => return .list (← items singlePair i)

/-- Fills the empty collections, oldest first. -/
def fillAll : (fuel : Nat) → Build Unit
  | 0 => return ()
  | fuel + 1 => do
    match (← get).waiting with
    | [] => return ()
    | (i, a) :: waiting =>
      modify fun s => { s with waiting }
      let n ← contents i
      modify fun s => { s with heap := s.heap.set a n }
      fillAll fuel

end Build

/-- The value of a document, on a larger heap.  Every node is filled once at most. -/
def Document.value (d : Document) (h : Heap) : Except Fault (Value × Heap) :=
  match d.root with
  | none => .ok (.scalar .null, h)
  | some i => do
    let (v, s) ← (do
      let v ← Build.value i
      Build.fillAll (d.nodes.size + 1)
      return v : Build Value).run { heap := h, nodes := d.nodes }
    return (v, s.heap)

/-- Reads a text that holds one document, or none. -/
def read (h : Heap) (text : String) : Except Fault (Value × Heap) := do
  (← Document.ofText text).value h

end Dotpath.Yaml

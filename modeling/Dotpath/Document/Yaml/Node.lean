import Dotpath.Document.Yaml.Tag
import Dotpath.Document.Yaml.Token.Stream

/-!
# The nodes of a YAML document

A document is a graph: an alias leads to the node of its anchor, so a node can be part of several
others and of itself.  Nodes are known by their numbers.  `Document.ofTokens` reads the nodes of the
only document in a row of tokens.
-/

namespace Dotpath.Yaml

/-- The number of a node. -/
abbrev NodeId := Nat

/-- What a node holds. -/
inductive Content where
  | scalar (text : String)
  | sequence (items : List NodeId)
  | mapping (pairs : List (NodeId × NodeId))
  deriving Repr, Inhabited

/-- A node. -/
structure Node where
  tag : Tag
  content : Content
  deriving Repr, Inhabited

/-- The nodes of a document, and the outermost of them unless the text is empty. -/
structure Document where
  nodes : Array Node
  root : Option NodeId

/-- How far a document has been read. -/
structure Composing where
  tokens : List Token
  handles : List (String × String) := [("!", "!"), ("!!", Tag.home)]
  nodes : Array Node := #[]
  anchors : List (String × NodeId) := []

/-- A step of reading a document. -/
abbrev Compose := StateT Composing (Except Fault)

namespace Compose

/-- The text is malformed here. -/
def fail {α : Type} : Compose α := throw .document

/-- The next token. -/
def peek : Compose (Option Token) := do return (← get).tokens.head?

/-- Past the next token. -/
def skip : Compose Unit := modify fun s => { s with tokens := s.tokens.tail }

/-- Past the next token if it is the given one. -/
def accept (t : Token) : Compose Bool := do
  if (← peek) == some t then
    skip
    return true
  else return false

/-- Past the next token, which is the given one. -/
def expect (t : Token) : Compose Unit := do
  if !(← accept t) then fail

/-- Whether the next token is one of some, or there is none. -/
def atAny (ts : List Token) : Compose Bool := do
  match ← peek with
  | some t => return ts.contains t
  | none => return false

/-- A new node. -/
def newNode (n : Node) : Compose NodeId := do
  let s ← get
  set { s with nodes := s.nodes.push n }
  return s.nodes.size

/-- Gives a node its content. -/
def setContent (i : NodeId) (c : Content) : Compose Unit :=
  modify fun s => { s with nodes := s.nodes.modify i ({ · with content := c }) }

/-- A node without a text. -/
def emptyNode : Compose NodeId := newNode ⟨.null, .scalar ""⟩

/-- The anchor and the tag in front of a node. -/
structure Properties where
  anchor : Option String := none
  /-- The full name of the tag. -/
  tag : Option String := none

/-- The full name of a tag. -/
def tagUri (handle : Option String) (suffix : String) : Compose String := do
  match handle with
  | none => return suffix
  | some h => match (← get).handles.lookup h with
    | some uri => return uri ++ suffix
    | none => fail

/-- An anchor, if one is next. -/
def anchor : Compose (Option String) := do
  match ← peek with
  | some (.anchor name) =>
    skip
    return some name
  | _ => return none

/-- A tag, if one is next. -/
def tag : Compose (Option (Option String × String)) := do
  match ← peek with
  | some (.tag handle suffix) =>
    skip
    return some (handle, suffix)
  | _ => return none

/-- The anchor and the tag in front of a node, in either order. -/
def properties : Compose Properties := do
  let first ← anchor
  let given ← tag
  let anchor ← if first.isNone && given.isSome then anchor else pure first
  let tag ← match given with
    | some (handle, suffix) => do pure (some (← tagUri handle suffix))
    | none => pure none
  return { anchor, tag }

/-- The tag of a collection: the usual one unless it is given. -/
def collectionTag (p : Properties) (usual : Tag) : Tag :=
  match p.tag with
  | none | some "!" => usual
  | some uri => .ofUri uri

/-- The tag of a scalar: by its text if it is plain or the tag leaves it open. -/
def scalarTag (p : Properties) (text : String) (plain : Bool) : Tag :=
  match p.tag with
  | none => if plain then .ofPlain text else .str
  | some "!" => .ofPlain text
  | some uri => .ofUri uri

/-- A new node under its anchor. -/
def openNode (p : Properties) (tag : Tag) (content : Content) : Compose NodeId := do
  match p.anchor with
  | none => newNode ⟨tag, content⟩
  | some name =>
    if ((← get).anchors.lookup name).isSome then fail
    else
      let i ← newNode ⟨tag, content⟩
      modify fun s => { s with anchors := (name, i) :: s.anchors }
      return i

mutual

/-- A node.  Blocks may be turned off, and a sequence of a mapping's value needs no indentation. -/
def node (block indentless : Bool) : (fuel : Nat) → Compose NodeId
  | 0 => fail
  | fuel + 1 => do
    match ← peek with
    | some (.alias name) =>
      skip
      match (← get).anchors.lookup name with
      | some i => return i
      | none => fail
    | _ =>
      let p ← properties
      let sequence (items : Compose (List NodeId)) : Compose NodeId := do
        let i ← openNode p (collectionTag p .seq) (.sequence [])
        setContent i (.sequence (← items))
        return i
      let mapping (pairs : Compose (List (NodeId × NodeId))) : Compose NodeId := do
        let i ← openNode p (collectionTag p .map) (.mapping [])
        setContent i (.mapping (← pairs))
        return i
      match ← peek with
      | some (.scalar text plain) =>
        skip
        openNode p (scalarTag p text plain) (.scalar text)
      | some .flowSequence =>
        skip
        sequence (flowItems true fuel)
      | some .flowMapping =>
        skip
        mapping (flowPairs true fuel)
      | t =>
        if indentless && t == some .blockEntry then sequence (blockItems true fuel)
        else if block && t == some .blockSequence then
          skip
          sequence (blockItems false fuel)
        else if block && t == some .blockMapping then
          skip
          mapping (blockPairs fuel)
        else if p.anchor.isSome || p.tag.isSome then
          openNode p (scalarTag p "" true) (.scalar "")
        else fail

/-- A node, or nothing before one of some tokens. -/
def nodeBefore (stops : List Token) (block indentless : Bool) : (fuel : Nat) → Compose NodeId
  | 0 => fail
  | fuel + 1 => do
    if ← atAny stops then emptyNode else node block indentless fuel

/-- The items of a block sequence up to its end. -/
def blockItems (indentless : Bool) : (fuel : Nat) → Compose (List NodeId)
  | 0 => fail
  | fuel + 1 => do
    if ← accept .blockEntry then
      let stops : List Token :=
        if indentless then [.blockEntry, .key, .value, .blockEnd] else [.blockEntry, .blockEnd]
      let i ← nodeBefore stops true false fuel
      return i :: (← blockItems indentless fuel)
    else
      if !indentless then expect .blockEnd
      return []

/-- The pairs of a block mapping up to its end. -/
def blockPairs : (fuel : Nat) → Compose (List (NodeId × NodeId))
  | 0 => fail
  | fuel + 1 => do
    if ← accept .key then
      let stops : List Token := [.key, .value, .blockEnd]
      let k ← nodeBefore stops true true fuel
      let v ← if ← accept .value then nodeBefore stops true true fuel else emptyNode
      return (k, v) :: (← blockPairs fuel)
    else
      expect .blockEnd
      return []

/-- The items of a flow sequence up to its bracket.  A key makes a mapping of one pair. -/
def flowItems (first : Bool) : (fuel : Nat) → Compose (List NodeId)
  | 0 => fail
  | fuel + 1 => do
    if ← accept .flowSequenceEnd then return []
    if !first then expect .flowEntry
    if ← accept .key then
      let i ← newNode ⟨.map, .mapping []⟩
      let k ← nodeBefore [.value, .flowEntry, .flowSequenceEnd] false false fuel
      let v ← if ← accept .value then
          nodeBefore [.flowEntry, .flowSequenceEnd] false false fuel
        else emptyNode
      setContent i (.mapping [(k, v)])
      return i :: (← flowItems false fuel)
    else if ← accept .flowSequenceEnd then return []
    else
      let i ← node false false fuel
      return i :: (← flowItems false fuel)

/-- The pairs of a flow mapping up to its brace. -/
def flowPairs (first : Bool) : (fuel : Nat) → Compose (List (NodeId × NodeId))
  | 0 => fail
  | fuel + 1 => do
    if ← accept .flowMappingEnd then return []
    if !first then expect .flowEntry
    if ← accept .key then
      let k ← nodeBefore [.value, .flowEntry, .flowMappingEnd] false false fuel
      let v ← if ← accept .value then
          nodeBefore [.flowEntry, .flowMappingEnd] false false fuel
        else emptyNode
      return (k, v) :: (← flowPairs false fuel)
    else if ← accept .flowMappingEnd then return []
    else
      let k ← node false false fuel
      let v ← emptyNode
      return (k, v) :: (← flowPairs false fuel)

end

/-- The directives before a document. -/
def directives (version : Bool) (handles : List (String × String)) : (fuel : Nat) → Compose Unit
  | 0 => fail
  | fuel + 1 => do
    match ← peek with
    | some (.directive d) =>
      skip
      match d with
      | .version major => if version || major != 1 then fail else directives true handles fuel
      | .tagHandle h uri =>
        if (handles.lookup h).isSome then fail else directives version ((h, uri) :: handles) fuel
      | .other => directives version handles fuel
    | _ => modify fun s => { s with handles := handles ++ s.handles }

/-- The root of the first document. -/
def firstRoot (fuel : Nat) : Compose NodeId := do
  match ← peek with
  | some (.directive _) | some .documentStart =>
    directives false [] fuel
    expect .documentStart
    match ← peek with
    | none | some (.directive _) | some .documentStart | some .documentEnd => emptyNode
    | _ => node true false fuel
  | _ => node true false fuel

/-- The root of the only document, unless there is none. -/
def root (fuel : Nat) : Compose (Option NodeId) := do
  if (← peek).isNone then return none
  else
    let i ← firstRoot fuel
    modify fun s => { s with tokens := s.tokens.dropWhile (· == .documentEnd) }
    if (← peek).isSome then fail
    else return some i

end Compose

/-- Reads the only document in a row of tokens. -/
def Document.ofTokens (ts : List Token) : Except Fault Document := do
  let (root, s) ← (Compose.root (4 * ts.length + 8)).run { tokens := ts }
  return ⟨s.nodes, root⟩

/-- Reads the document in a text. -/
def Document.ofText (text : String) : Except Fault Document := do
  Document.ofTokens (← tokens text)

end Dotpath.Yaml

import Dotpath.Graph.Items
import Dotpath.Graph.Text

/-!
# Plain data

A document holds dictionaries, lists and scalars only.  `Heap.plain` turns a value into plain data:
records and models into dictionaries, tuples, sets and arrays into lists, machine scalars into
ordinary ones, and keys that a document cannot hold into their texts.  What has no plain form stays
as it is.  The result lies in new nodes of the heap; the value itself is not changed.
-/

namespace Dotpath

/-- Whether a scalar can be a key of a document. -/
def Scalar.isPlainKey : Scalar → Bool
  | .null | .bool _ | .int _ | .float _ | .text _ => true
  | .machine "float64" _ | .machine "str_" _ => true
  | _ => false

/-- What a duration shows in a document: days, hours, minutes and seconds, each where it is not
zero. -/
def durationCode (seconds : Int) : String :=
  let n := seconds.natAbs
  let part (k : Nat) (unit : String) : String := if k = 0 then "" else toString k ++ unit
  let clock := part (n % 86400 / 3600) "H" ++ part (n % 3600 / 60) "M" ++ part (n % 60) "S"
  let body := part (n / 86400) "D" ++ (if clock.isEmpty then "" else "T" ++ clock)
  (if seconds < 0 then "-P" else "P") ++ (if body.isEmpty then "T0S" else body)

/-- A fault of a model that holds what a document cannot. -/
def unserializableType (type : String) : Fault :=
  .unserializable ("Unable to serialize unknown type: <class '" ++ qualifiedName type ++ "'>")

/-- A scalar inside a model as a document holds it. -/
def Scalar.inDocument (s : Scalar) : Except Fault Scalar :=
  match s with
  | .null | .bool _ | .int _ | .float _ | .text _ => .ok s
  | .decimal t | .uuid t | .filePath t => .ok (.text t)
  | .bytes bs => match String.fromUTF8? ⟨bs.toArray⟩ with
    | some t => .ok (.text t)
    | none => .error (.unserializable "invalid utf-8 sequence")
  | .date d => .ok (.text d.text)
  | .dateTime d t => .ok (.text (d.text ++ "T" ++ (match t.offset with
    | some 0 => ({ t with offset := none } : TimeOfDay).text ++ "Z"
    | _ => t.text)))
  | .time t => .ok (.text t.text)
  | .duration n => .ok (.text (durationCode n))
  | .colour m => .ok (.int (colourValue m))
  | .complex re im => .ok (.text (complexText re im))
  | .machine "float64" v | .machine "str_" v => .ok v
  | s => .error (unserializableType s.typeName)

/-- A key inside a model as a document holds it. -/
def Scalar.keyInDocument (s : Scalar) : Except Fault String :=
  match s with
  | .null => .ok "None"
  | .bool b => .ok (if b then "true" else "false")
  | .int n => .ok (toString n)
  | s => do
    match (← s.inDocument).text? with
    | some t => .ok t
    | none => .error .unprintableInteger

namespace Heap

/-- A new list. -/
def allocList (h : Heap) (items : List Value) : Value × Heap :=
  let (h, a) := h.alloc (.list items)
  (.ref a, h)

/-- A new dictionary. -/
def allocDict (h : Heap) (es : Entries) : Value × Heap :=
  let (h, a) := h.alloc (.dict .plain es)
  (.ref a, h)

/-- A key as a document holds it. -/
def plainKey (σ : Schema) (h : Heap) (k : Value) : Except Fault Value :=
  match k with
  | .scalar s => if s.isPlainKey then .ok k else do return .scalar (.text (← h.text σ k))
  | k => do return .scalar (.text (← h.text σ k))

/-- The members of an array as nested lists. -/
def gridList (h : Heap) (cells : List Value) : (shape : List Nat) → (offset : Nat) → Value × Heap
  | [], offset => ((cells[offset]?).getD (.scalar .null), h)
  | n :: shape, offset =>
    let (items, h) := (List.range n).foldl
      (fun (items, h) i =>
        let (v, h) := gridList h cells shape (offset + i * cellCount shape)
        (items ++ [v], h))
      ([], h)
    h.allocList items

/-- Runs a conversion through several values. -/
def convertAll (f : Heap → Value → Except Fault (Value × Heap)) (h : Heap) :
    List Value → Except Fault (List Value × Heap)
  | [] => .ok ([], h)
  | v :: vs => do
    let (w, h) ← f h v
    let (ws, h) ← convertAll f h vs
    return (w :: ws, h)

/-- Runs a conversion through the values of a dictionary, after the keys. -/
def convertEntries (key : Value → Except Fault Value)
    (f : Heap → Value → Except Fault (Value × Heap)) (h : Heap) :
    Entries → Except Fault (Entries × Heap)
  | [] => .ok ([], h)
  | (k, v) :: es => do
    let k ← key k
    let (w, h) ← f h v
    let (rest, h) ← convertEntries key f h es
    return ((k, w) :: rest, h)

mutual

/-- The document form of what a model holds. -/
def modelPart (σ : Schema) : (fuel : Nat) → Heap → Value → Except Fault (Value × Heap)
  | 0, _, _ => .error endlessText
  | _ + 1, h, .scalar s => do return (.scalar (← s.inDocument), h)
  | fuel + 1, h, .tuple items | fuel + 1, h, .named _ _ items | fuel + 1, h, .frozenSet items => do
    let (items, h) ← convertAll (modelPart σ fuel) h items
    return h.allocList items
  | fuel + 1, h, .ref a =>
    match h.get? a with
    | some (.list items) | some (.set items) => do
      let (items, h) ← convertAll (modelPart σ fuel) h items
      return h.allocList items
    | some (.dict _ es) => do
      let (es, h) ← convertEntries modelKey (modelPart σ fuel) h es
      return h.allocDict (Entries.ofList es)
    | some (.object type attrs) =>
      if σ.isModel type then modelFields σ fuel h a (σ.textNames type attrs)
      else if σ.isRecord type then modelFields σ fuel h a ((σ.fields type).map (·.name))
      else .error (unserializableType type)
    | some (.byteArray bs) => do return (.scalar (← (Scalar.bytes bs).inDocument), h)
    | some n => .error (unserializableType n.typeName)
    | none => .error (unserializableType "object")
  | _ + 1, h, v => .error (unserializableType (h.typeName v))

/-- A key of a dictionary in a model. -/
def modelKey (k : Value) : Except Fault Value :=
  match k with
  | .scalar s => do return .scalar (.text (← s.keyInDocument))
  | .tuple items | .named _ _ items => do
    let parts ← items.mapM fun
      | .scalar s => s.keyInDocument
      | _ => .error (.badDocumentKey "tuple")
    return .scalar (.text (String.intercalate "," parts))
  | _ => .error (.badDocumentKey "object")

/-- The named attributes of an object as a dictionary. -/
def modelFields (σ : Schema) : (fuel : Nat) → Heap → Address → List String →
    Except Fault (Value × Heap)
  | 0, _, _, _ => .error endlessText
  | fuel + 1, h, a, names => do
    let values ← names.mapM fun n => h.attributeOf σ a n
    let (values, h) ← convertAll (modelPart σ fuel) h values
    return h.allocDict ((names.map fun n => .scalar (.text n)).zip values)

end

mutual

/-- Whether the copy of a key holds a dictionary, which no key may: the copy of a record is one. -/
def copiesRecord (σ : Schema) (h : Heap) : Value → Bool
  | .tuple items | .named _ _ items => copiesSomeRecord σ h items
  | .ref a =>
    match h.get? a with
    | some (.object type _) => σ.isRecord type
    | _ => false
  | _ => false

/-- Whether the copy of one of the parts of a key does. -/
def copiesSomeRecord (σ : Schema) (h : Heap) : List Value → Bool
  | [] => false
  | v :: vs => copiesRecord σ h v || copiesSomeRecord σ h vs

end

/-- Plain data out of a value.  Inside a record, `inRecord`, parts are copied on the way, which some
types do not allow. -/
def plainWith (σ : Schema) : (fuel : Nat) → (inRecord : Bool) → Heap → Value →
    Except Fault (Value × Heap)
  | 0, _, _, _ => .error endlessText
  | _ + 1, inRecord, h, .scalar s =>
    match s with
    | .memory _ => if inRecord then .error (.uncopyable "memoryview") else .ok (.scalar s, h)
    | s => .ok (.scalar s.plain, h)
  | fuel + 1, inRecord, h, .tuple items | fuel + 1, inRecord, h, .named _ _ items
  | fuel + 1, inRecord, h, .frozenSet items => do
    let (items, h) ← convertAll (plainWith σ fuel inRecord) h items
    return h.allocList items
  | _ + 1, _, h, .range a b c => .ok (.range a b c, h)
  | _ + 1, _, h, .row a offset shape => .ok (gridList h (h.gridCells a) shape offset)
  | fuel + 1, inRecord, h, .ref a =>
    match h.get? a with
    | some (.list items) | some (.set items) => do
      let (items, h) ← convertAll (plainWith σ fuel inRecord) h items
      return h.allocList items
    | some (.dict type es) => do
      if inRecord && type == .defaulting then throw .badDefault
      if inRecord && copiesSomeRecord σ h es.keys then throw (.unhashable "dict")
      let (es, h') ← convertEntries (h.plainKey σ) (plainWith σ fuel inRecord) h es
      return h'.allocDict (Entries.ofList es)
    | some (.grid _ shape cells _) => .ok (gridList h cells shape 0)
    | some (.object type attrs) =>
      if σ.isModel type then modelFields σ fuel h a (σ.textNames type attrs)
      else if σ.isRecord type then do
        let names := (σ.fields type).map (·.name)
        let values ← names.mapM fun n => h.attributeOf σ a n
        let (values, h) ← convertAll (plainWith σ fuel true) h values
        return h.allocDict ((names.map fun n => .scalar (.text n)).zip values)
      else .ok (.ref a, h)
    | some n =>
      match inRecord, n with
      | true, .proxy _ | true, .view .. => .error (.uncopyable n.typeName)
      | _, _ => .ok (.ref a, h)
    | none => .ok (.ref a, h)

/-- Plain data out of a value, on a heap with room for it. -/
def plain (σ : Schema) (h : Heap) (v : Value) : Except Fault (Value × Heap) :=
  plainWith σ (h.fuel σ v) false h v

end Heap

end Dotpath

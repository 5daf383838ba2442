import Dotpath.Array.Text
import Dotpath.Graph.Reach
import Dotpath.Schema.Properties

/-!
# Texts of values

The text of a value, its quoted text, and the attributes of objects that both depend on.  A
container shows the quoted texts of its members; inside itself it shows as dots.  The text of an
object follows its class: a fixed text, the fields of a record, or those of a model.

The recursion is bounded by `fuel`, of which `Heap.fuel` is enough for a value unless
properties compute themselves from each other forever.
-/

namespace Dotpath

mutual

/-- How deep tuples lie inside each other. -/
def Value.depth : Value → Nat
  | .tuple items | .named _ _ items | .frozenSet items => depthOfAll items + 1
  | _ => 1

/-- The greatest depth of several values. -/
def depthOfAll : List Value → Nat
  | [] => 0
  | v :: vs => max v.depth (depthOfAll vs)

end

/-- How deep tuples lie inside each other in the node at an address. -/
def Heap.depthAt (σ : Schema) (h : Heap) (a : Address) : Nat :=
  match h.get? a with
  | some n => depthOfAll (n.held σ)
  | none => 0

/-- Enough fuel for the text of a value. -/
def Heap.fuel (σ : Schema) (h : Heap) (v : Value) : Nat :=
  let depth := (h.reach σ v).foldl (fun d a => max d (h.depthAt σ a)) v.depth
  (h.nodes.size + 2) * (depth + σ.propertyCount + 5)

/-- The text of a scalar; an integer may be too long for one. -/
def scalarText (s : Scalar) : Except Fault String :=
  match s.text? with
  | some t => .ok t
  | none => .error .unprintableInteger

/-- The quoted text of a scalar. -/
def scalarQuoted (s : Scalar) : Except Fault String :=
  match s.quoted? with
  | some t => .ok t
  | none => .error .unprintableInteger

/-- How a container shows inside itself. -/
def Node.selfText : Node → String
  | .list _ | .deque _ => "[...]"
  | .dict .plain _ => "{...}"
  | .dict .defaulting _ => "defaultdict(<class 'list'>, {...})"
  | .set _ => "set(...)"
  | _ => "..."

/-- Members in brackets; a tuple of one has a comma. -/
def tupleText (parts : List String) : String :=
  match parts with
  | [p] => "(" ++ p ++ ",)"
  | ps => "(" ++ Text.commas ps ++ ")"

/-- Pairs in braces. -/
def pairsText (keys values : List String) : String :=
  "\x7b" ++ Text.commas ((keys.zip values).map fun (k, v) => k ++ ": " ++ v) ++ "\x7d"

/-- Names with their quoted values. -/
def fieldsText (names values : List String) : List String :=
  (names.zip values).map fun (n, v) => n ++ "=" ++ v

/-- The names of an instance whose values make up its text: the fields of a record in order, or
what a model stores and shows. -/
def Schema.textNames (σ : Schema) (type : String) (attrs : List (String × Value)) : List String :=
  if σ.isModel type then
    let stored := attrs.map (·.1)
    stored.filter (fun n => (σ.field? type n).isSome) ++ stored.filter (σ.isExtra type ·) ++
      (σ.shownProperties type).map (·.name)
  else (σ.fields type).map (·.name)

/-- The fixed text of the instances of a class. -/
def Schema.fixedText? (σ : Schema) (type : String) : Option String :=
  (σ.lineage type).findSome? (·.text)

/-- An object without a text of its own. -/
def anonymousText (type : String) : String := "<fx." ++ type ++ " object>"

namespace Heap

mutual

/-- The value of an attribute of the object at an address. -/
def attributeWith (σ : Schema) (h : Heap) : (fuel : Nat) → Address → String → Except Fault Value
  | 0, _, _ => .error endlessText
  | fuel + 1, a, name =>
    match h.get? a with
    | some (.object type attrs) =>
      let stored : Except Fault Value := match attrs.lookup name with
        | some v => .ok v
        | none => .error (.noAttribute type name)
      match σ.descriptor? type name with
      | some (.property p) => compute σ h fuel a p.getter
      | some .slot | none => stored
      | some (.value v) => .ok ((attrs.lookup name).getD v)
    | some n => .error (.noAttribute n.typeName name)
    | none => .error (.noAttribute "object" name)

/-- The value of a computed property. -/
def compute (σ : Schema) (h : Heap) (fuel : Nat) (a : Address) : Getter → Except Fault Value
  | .constant v => .ok v
  | .raises kind args => .error (.raised kind args)
  | .alias n =>
    match fuel with
    | 0 => .error endlessText
    | fuel + 1 => attributeWith σ h fuel a n
  | .length n =>
    match fuel with
    | 0 => .error endlessText
    | fuel + 1 => do
      let v ← attributeWith σ h fuel a n
      let size ← h.length v
      return .scalar (.int size)
  | .concat parts =>
    match fuel with
    | 0 => .error endlessText
    | fuel + 1 => do
      let texts ← parts.mapM fun
        | .inl t => .ok t
        | .inr n => do
          let v ← attributeWith σ h fuel a n
          textWith σ h fuel [] v
      return .scalar (.text (String.join texts))

/-- The text of a value inside the containers `around`. -/
def textWith (σ : Schema) (h : Heap) : (fuel : Nat) → (around : List Address) → Value →
    Except Fault String
  | 0, _, _ => .error endlessText
  | _ + 1, _, .scalar s => scalarText s
  | fuel + 1, around, .row a offset shape => gridText σ h fuel around false a offset shape
  | fuel + 1, around, .ref a =>
    match h.get? a with
    | some (.object type attrs) =>
      match σ.fixedText? type with
      | some t => .ok t
      | none =>
        if σ.isModel type then do
          let names := σ.textNames type attrs
          let values ← names.mapM fun n => do
            let v ← attributeWith σ h fuel a n
            quotedWith σ h fuel (a :: around) v
          return String.intercalate " " (fieldsText names values)
        else quotedWith σ h fuel around (.ref a)
    | some (.grid _ shape _ _) => gridText σ h fuel around false a 0 shape
    | some (.proxy d) => textWith σ h fuel around (.ref d)
    | _ => quotedWith σ h fuel around (.ref a)
  | fuel + 1, around, v => quotedWith σ h fuel around v

/-- The quoted text of a value inside the containers `around`. -/
def quotedWith (σ : Schema) (h : Heap) : (fuel : Nat) → (around : List Address) → Value →
    Except Fault String
  | 0, _, _ => .error endlessText
  | _ + 1, _, .scalar s => scalarQuoted s
  | fuel + 1, around, .tuple items => do
    return tupleText (← items.mapM (quotedWith σ h fuel around))
  | fuel + 1, around, .named type fields items => do
    let values ← items.mapM (quotedWith σ h fuel around)
    return type ++ "(" ++ Text.commas (fieldsText fields values) ++ ")"
  | fuel + 1, around, .frozenSet items => do
    let texts ← items.mapM (quotedWith σ h fuel around)
    return if texts.isEmpty then "frozenset()"
      else "frozenset(\x7b" ++ Text.commas texts ++ "\x7d)"
  | _ + 1, _, .range start stop step =>
    .ok ("range(" ++ Text.commas ([toString start, toString stop] ++
      (if step = 1 then [] else [toString step])) ++ ")")
  | fuel + 1, around, .row a offset shape => gridText σ h fuel around true a offset shape
  | fuel + 1, around, .ref a =>
    match h.get? a with
    | none => .ok ""
    | some n =>
      if around.contains a then .ok n.selfText
      else
        let inside := a :: around
        let all (vs : List Value) : Except Fault (List String) :=
          vs.mapM (quotedWith σ h fuel inside)
        let pairs (es : Entries) : Except Fault String := do
          return pairsText (← all (es.map (·.1))) (← all (es.map (·.2)))
        match n with
        | .list items => do return "[" ++ Text.commas (← all items) ++ "]"
        | .deque items => do return "deque([" ++ Text.commas (← all items) ++ "])"
        | .set items => do
          let texts ← all items
          return if texts.isEmpty then "set()" else "\x7b" ++ Text.commas texts ++ "\x7d"
        | .dict .plain es => pairs es
        | .dict .ordered es => do
          let keys ← all (es.map (·.1))
          let values ← all (es.map (·.2))
          let shown := (keys.zip values).map fun (k, v) => "(" ++ k ++ ", " ++ v ++ ")"
          return if shown.isEmpty then "OrderedDict()"
            else "OrderedDict([" ++ Text.commas shown ++ "])"
        | .dict .defaulting es => do return "defaultdict(<class 'list'>, " ++ (← pairs es) ++ ")"
        | .view part d => do
          return part.name ++ "([" ++ Text.commas (← all (h.viewMembers part d)) ++ "])"
        | .proxy d => do
          return "mappingproxy(" ++ (← quotedWith σ h fuel around (.ref d)) ++ ")"
        | .chain ds => do return "ChainMap(" ++ Text.commas (← all (ds.map .ref)) ++ ")"
        | .byteArray bs => .ok ("bytearray(" ++ Text.quotedBytes bs ++ ")")
        | .cells 'u' items => do
          let texts ← items.mapM scalarText
          return if texts.isEmpty then "array('u')"
            else "array('u', " ++ Text.quoted (String.join texts) ++ ")"
        | .cells code items => do
          let texts ← items.mapM scalarQuoted
          let head := "array('" ++ String.singleton code ++ "'"
          return if texts.isEmpty then head ++ ")"
            else head ++ ", [" ++ Text.commas texts ++ "])"
        | .grid _ shape _ _ => gridText σ h fuel around true a 0 shape
        | .object type attrs =>
          if σ.isRecord type || σ.isModel type then do
            let names := σ.textNames type attrs
            let values ← names.mapM fun m => do
              let v ← attributeWith σ h fuel a m
              quotedWith σ h fuel inside v
            return type ++ "(" ++ Text.commas (fieldsText names values) ++ ")"
          else .ok (anonymousText type)
        | n => .ok (anonymousText n.typeName)

/-- The text of an array or of a part of one. -/
def gridText (σ : Schema) (h : Heap) : (fuel : Nat) → (around : List Address) → (quoted : Bool) →
    (a : Address) → (offset : Nat) → (shape : List Nat) → Except Fault String
  | 0, _, _, _, _, _ => .error endlessText
  | fuel + 1, around, quoted, a, offset, shape =>
    match h.get? a with
    | some (.grid element _ items _) => do
      let cells := (items.drop offset).take (cellCount shape)
      if shape.isEmpty && !quoted then
        match cells.head? with
        | some v => textWith σ h fuel around v
        | none => .ok ""
      else do
        let texts ←
          if element.form == .real then pure (realTexts (cells.map realCell))
          else do
            let texts ← cells.mapM (quotedWith σ h fuel around)
            pure (alignRight texts)
        let body := gridRows (if quoted then ", " else " ") shape (if quoted then 6 else 0) texts
        if quoted then
          let plain := ["<i8", "<f8", "|b1", "<c16"].contains element.name && !cells.isEmpty
          let note := if plain then "" else ", dtype=" ++ (match element.form with
            | .object => "object"
            | .text | .bytes | .date | .duration => Text.quoted element.name
            | .truth => "bool"
            | .signed => "int" ++ toString (8 * element.size)
            | .unsigned => "uint" ++ toString (8 * element.size)
            | .real => "float" ++ toString (8 * element.size)
            | .complex => "complex" ++ toString (8 * element.size)
            | .other => Text.quoted element.name)
          return "array(" ++ body ++ note ++ ")"
        else return body
    | _ => .ok ""

end

/-- The text of a value. -/
def text (σ : Schema) (h : Heap) (v : Value) : Except Fault String :=
  h.textWith σ (h.fuel σ v) [] v

/-- The quoted text of a value. -/
def quoted (σ : Schema) (h : Heap) (v : Value) : Except Fault String :=
  h.quotedWith σ (h.fuel σ v) [] v

/-- The value of an attribute of the object at an address. -/
def attributeOf (σ : Schema) (h : Heap) (a : Address) (name : String) : Except Fault Value :=
  h.attributeWith σ (h.fuel σ (.ref a)) a name

end Heap

end Dotpath

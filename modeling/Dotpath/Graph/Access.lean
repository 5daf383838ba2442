import Dotpath.Graph.Assignment
import Dotpath.Path.Basic

/-!
# Reading and writing properties

Access to the named properties of a value.  Only objects have properties; a read-only property
counts as missing when it is written.

A class may answer itself for the dictionary of its instances, or for their extra values, by a
computed property of the special name.  Then the properties are those that its answer names, and
listing them fails where the answer does.
-/

namespace Dotpath

/-- A segment as messages show it. -/
def segmentText (s : Segment) : String := s.getD "None"

/-- What messages show for the declared type of a property. -/
def annotationText : Option Annotation → String
  | some a => a.text
  | none => "<object object>"

namespace Heap

/-- The object at a value: its address, class and stored attributes. -/
def object? (h : Heap) : Value → Option (Address × String × List (String × Value))
  | .ref a => match h.get? a with
    | some (.object type attrs) => some (a, type, attrs)
    | _ => none
  | _ => none

/-- The name under which a class holds its own way of showing an instance in a message. -/
def formatName : String := "__format__"

/-- The text of a value in a message.  It is the text of the value, unless the class holds another way
of showing it, which must be a function to be used. -/
def format (σ : Schema) (h : Heap) (v : Value) : Except Fault String :=
  match h.object? v with
  | some (a, type, _) =>
    if (σ.descriptor? type formatName).isSome then do
      let way ← h.attributeOf σ a formatName
      .error (.notCallable (h.typeName way))
    else h.text σ v
  | none => h.text σ v

/-- The name under which an instance answers for its dictionary. -/
def dictionaryName : String := "__dict__"

/-- The name under which an instance answers for its extra values. -/
def extrasName : String := "__pydantic_extra__"

/-- The names in the dictionary that an instance answers for a special name.  What is no dictionary
names nothing, and neither does an attribute that is missing. -/
def answeredNames (σ : Schema) (h : Heap) (a : Address) (name : String) :
    Except Fault (List String) :=
  match h.attributeOf σ a name with
  | .error f => if f.kind.isA .attributeError then .ok [] else .error f
  | .ok (.ref d) =>
    match h.get? d with
    | some (.dict _ es) => es.keys.mapM fun
      | .scalar s => match s.plain with
        | .text n => .ok n
        | s => .error (.noAttribute s.typeName "startswith")
      | k => .error (.noAttribute (h.faultTypeName k) "startswith")
    | _ => .ok []
  | .ok _ => .ok []

/-- The names that an instance of a class has under a special name: those that it answers for it, if
its class computes the name, or else the given ones. -/
def namesUnder (σ : Schema) (h : Heap) (a : Address) (type name : String) (names : List String) :
    Except Fault (List String) :=
  if σ.computes type name then h.answeredNames σ a name else .ok names

/-- All properties of a value. -/
def propertiesOf (σ : Schema) (h : Heap) (v : Value) : Except Fault (List PropertyInfo) :=
  match h.object? v with
  | some (a, type, attrs) => do
    let held ← h.namesUnder σ a type dictionaryName (σ.instanceNames type attrs)
    let extra ← h.namesUnder σ a type extrasName []
    return listNames (⟨·, none, true⟩)
      (listNames (σ.instanceProperty type) (σ.declaredProperties type) held) extra
  | none => .ok []

/-- The value of a property. -/
def readProperty (σ : Schema) (h : Heap) (v : Value) (name : Segment) : Except Fault Value := do
  let ps ← h.propertiesOf σ v
  if ps.isEmpty then .error (.noProperties (h.typeName v) false)
  else match h.object? v, ps.find? fun p => some p.name == name with
    | some (a, _, _), some p => h.attributeOf σ a p.name
    | _, _ => .error (.noProperty (h.typeName v) (segmentText name) false)

/-- The fault of a value that is not of the declared type. -/
def illegal (h : Heap) (owner : Value) (p : PropertyInfo) (v : Value) : Fault :=
  .illegalAssignment ("cannot assign " ++ h.typeName v ++ " to " ++ h.typeName owner ++ "." ++
    p.name ++ " (declared as " ++ annotationText p.declared ++ ")")

/-- Assigns a property. -/
def writeProperty (σ : Schema) (h : Heap) (owner : Value) (name : Segment) (v : Value) :
    Except Stopped Heap := do
  let ps ← (h.propertiesOf σ owner).mapError (·, h)
  let ps := ps.filter (·.writable)
  if ps.isEmpty then .error (.noProperties (h.typeName owner) true, h)
  else match h.object? owner, ps.find? fun p => some p.name == name with
    | some (a, _, _), some p =>
      if h.isAssignable σ p.declared v then
        match h.assign σ a p.name v with
        | .error (f, h') =>
          .error (if f.kind.isA .validation then h.illegal owner p v else f, h')
        | r => r
      else .error (h.illegal owner p v, h)
    | _, _ => .error (.noProperty (h.typeName owner) (segmentText name) true, h)

end Heap

end Dotpath

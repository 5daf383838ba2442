import Dotpath.Schema.Basic

/-!
# Properties

A property is a public name that an object exposes as data: a computed property, a slot, a field of
a record or a model, or whatever is stored in the instance.  Names that start with an underscore
are never properties.

The properties that a class declares are collected in passes; a later pass replaces what an earlier
one found under the same name.
-/

namespace Dotpath

/-- A property and what is known about it.  Without an annotation every value is accepted. -/
structure PropertyInfo where
  name : String
  declared : Option Annotation := none
  writable : Bool := true
  deriving Repr, Inhabited

/-- Adds a property, in the place of one of the same name if there is one. -/
def overrideProperty (ps : List PropertyInfo) (p : PropertyInfo) : List PropertyInfo :=
  if ps.any (·.name == p.name) then ps.map fun q => if q.name == p.name then p else q
  else ps ++ [p]

/-- Adds the public ones of several properties. -/
def overrideProperties (ps qs : List PropertyInfo) : List PropertyInfo :=
  (qs.filter (isPublic ·.name)).foldl overrideProperty ps

/-- Adds what is known of the public names that are not among several properties yet. -/
def listNames (info : String → PropertyInfo) (ps : List PropertyInfo) (names : List String) :
    List PropertyInfo :=
  names.foldl (fun ps n => if !isPublic n || ps.any (·.name == n) then ps else ps ++ [info n]) ps

theorem listNames_cons (info : String → PropertyInfo) (ps : List PropertyInfo) (n : String)
    (names : List String) :
    listNames info ps (n :: names) =
      listNames info (if !isPublic n || ps.any (·.name == n) then ps else ps ++ [info n]) names :=
  rfl

theorem listNames_append (info : String → PropertyInfo) (ps : List PropertyInfo)
    (names names' : List String) :
    listNames info ps (names ++ names') = listNames info (listNames info ps names) names' :=
  List.foldl_append

namespace Schema

/-- Whether a name can be resolved to a class. -/
def knows (σ : Schema) (name : String) : Bool :=
  (σ.find? name).isSome || builtinTypes.contains name

/-- Annotations that a class and its ancestors declare, oldest first. -/
def declaredAnnotations (σ : Schema) (type : String) : List (String × Annotation) :=
  (σ.lineage type).reverse.flatMap fun c => c.fields.map fun f => (f.name, f.declared)

/-- The resolved annotations of a class, oldest first.  If one cannot be resolved, those that are
not mere names are taken as they are. -/
def hints (σ : Schema) (type : String) : List (String × Annotation) :=
  let declared := σ.declaredAnnotations type
  match declared.mapM fun (n, a) => (a.resolve? σ.knows).map (n, ·) with
  | some resolved => resolved
  | none => declared.filter fun (_, a) => match a with
    | .forward _ => false
    | _ => true

/-- The most derived annotation of a name. -/
def hint? (σ : Schema) (type name : String) : Option Annotation :=
  (σ.hints type).reverse.lookup name

/-- The declared type of the values that a property accepts. -/
def setterAnnotation (σ : Schema) (p : Property) : Option Annotation :=
  p.setter.bind fun _ => p.declared.bind (·.resolve? σ.knows)

/-- First pass: the computed properties, oldest ancestor first. -/
def computedProperties (σ : Schema) (type : String) : List PropertyInfo :=
  (σ.lineage type).reverse.flatMap fun c =>
    c.properties.map fun p => ⟨p.name, σ.setterAnnotation p, p.setter.isSome⟩

/-- Second pass: the slots. -/
def slotProperties (σ : Schema) (type : String) : List PropertyInfo :=
  (σ.lineage type).reverse.flatMap fun c =>
    (c.slots.getD []).map fun n => ⟨n, σ.hint? type n, true⟩

/-- Third pass: the fields of a record. -/
def recordProperties (σ : Schema) (type : String) : List PropertyInfo :=
  if σ.isRecord type then
    (σ.fields type).map fun f => ⟨f.name, σ.hint? type f.name, !σ.isFrozenRecord type⟩
  else []

/-- Fourth pass: the fields of a model. -/
def modelProperties (σ : Schema) (type : String) : List PropertyInfo :=
  if σ.isModel type then
    (σ.fields type).map fun f =>
      ⟨f.name, some ((f.declared.resolve? σ.knows).getD f.declared),
        !(σ.isFrozenModel type || f.frozen)⟩
  else []

/-- The computed properties that a model shows among its fields, in order. -/
def shownProperties (σ : Schema) (type : String) : List Property :=
  if σ.isModel type then
    let all := (σ.lineage type).reverse.flatMap (·.properties.filter (·.computed))
    all.foldl (fun ps p =>
      if ps.any (·.name == p.name) then ps.map fun q => if q.name == p.name then p else q
      else ps ++ [p]) []
  else []

/-- Last pass: the computed properties shown by a model, which accept every value. -/
def shownPropertyInfos (σ : Schema) (type : String) : List PropertyInfo :=
  (σ.shownProperties type).map fun p => ⟨p.name, none, p.setter.isSome⟩

/-- All properties that a class declares. -/
def declaredProperties (σ : Schema) (type : String) : List PropertyInfo :=
  [σ.computedProperties type, σ.slotProperties type, σ.recordProperties type,
    σ.modelProperties type, σ.shownPropertyInfos type].foldl overrideProperties []

/-- Whether a stored attribute lies outside the fields of a model that keeps extra values. -/
def isExtra (σ : Schema) (type name : String) : Bool :=
  σ.isModel type && isPublic name && (σ.field? type name).isNone

/-- The names in the dictionary of an instance, extra values of models last. -/
def instanceNames (σ : Schema) (type : String) (attrs : List (String × Value)) : List String :=
  let names := (attrs.map (·.1)).filter fun n => !(σ.slotNames type).contains n
  names.filter (!σ.isExtra type ·) ++ names.filter (σ.isExtra type ·)

/-- What is known of a stored attribute that its class does not declare as a property. -/
def instanceProperty (σ : Schema) (type name : String) : PropertyInfo :=
  ⟨name, if σ.isExtra type name then none else σ.hint? type name, true⟩

/-- All properties of an instance, those of its class first. -/
def properties (σ : Schema) (type : String) (attrs : List (String × Value)) : List PropertyInfo :=
  listNames (σ.instanceProperty type) (σ.declaredProperties type) (σ.instanceNames type attrs)

end Schema

end Dotpath

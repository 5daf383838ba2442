import Dotpath.Graph.Heap
import Dotpath.Schema.Annotation

/-!
# Classes

A schema lists the classes whose instances a graph may hold.  A class inherits from classes before
it; its lineage is the order in which an attribute is looked up: the class itself, then its bases,
every class before its own bases, and bases in the order in which they are given.
-/

namespace Dotpath

/-- What instances of a class are. -/
inductive ClassKind where
  /-- Objects with whatever attributes they are given. -/
  | plain
  /-- Records, whose fields are declared. -/
  | record
  /-- Models, which know their fields and may check assignments. -/
  | model
  deriving DecidableEq, Repr, Inhabited

/-- A declared attribute; the limits hold for fields of models. -/
structure FieldDef where
  name : String
  declared : Annotation
  frozen : Bool := false
  atLeast : Option Scalar := none
  atMost : Option Scalar := none
  minLength : Option Nat := none
  maxLength : Option Nat := none
  deriving Repr, Inhabited

/-- How a property computes its value. -/
inductive Getter where
  | constant (v : Value)
  | alias (name : String)
  /-- The length of an attribute. -/
  | length (name : String)
  /-- Texts and attributes one after the other. -/
  | concat (parts : List (String ⊕ String))
  | raises (kind : FaultKind) (arguments : List Argument)
  deriving Repr, Inhabited

/-- What an assignment to a property does: it assigns the value to attributes of the instance, one
after the other, and may raise an error in the end. -/
structure Setter where
  stores : List String := []
  raises : Option (FaultKind × List Argument) := none
  deriving Repr, Inhabited

/-- A property: an attribute that is computed. -/
structure Property where
  name : String
  getter : Getter
  setter : Option Setter := none
  /-- The declared type of the values assigned. -/
  declared : Option Annotation := none
  /-- Whether the property is shown as part of its model. -/
  computed : Bool := false
  deriving Repr, Inhabited

/-- The options of a model; an option that is not given is inherited. -/
structure ModelOptions where
  validates : Option Bool := none
  frozen : Option Bool := none
  keepsExtra : Option Bool := none
  deriving Repr, Inhabited

/-- A class of the schema. -/
structure ClassDef where
  name : String
  kind : ClassKind := .plain
  bases : List String := []
  fields : List FieldDef := []
  /-- Whether instances of this record class refuse assignments. -/
  frozen : Bool := false
  options : ModelOptions := {}
  /-- The names of the only attributes that instances have room for. -/
  slots : Option (List String) := none
  classAttrs : List (String × Value) := []
  /-- The text of every instance. -/
  text : Option String := none
  properties : List Property := []
  deriving Repr, Inhabited

/-- The classes in the order of their definition. -/
structure Schema where
  classes : List ClassDef := []
  deriving Repr, Inhabited

/-- Whether a name is public: it does not start with an underscore. -/
def isPublic (name : String) : Bool :=
  match name.toList with
  | '_' :: _ => false
  | _ => true

/-- Merges orders of classes: the first head that is in no tail comes next. -/
def mergeLineages : (fuel : Nat) → List (List String) → List String
  | 0, _ => []
  | fuel + 1, orders =>
    let orders := orders.filter (!·.isEmpty)
    let heads := orders.filterMap List.head?
    match heads.find? fun c => orders.all fun o => !o.tail.contains c with
    | none => []
    | some c =>
      c :: mergeLineages fuel (orders.map fun o => if o.head? = some c then o.tail else o)

namespace Schema

/-- The number of all properties. -/
def propertyCount (σ : Schema) : Nat :=
  σ.classes.foldl (fun n c => n + c.properties.length) 0

/-- A class by name. -/
def find? (σ : Schema) (name : String) : Option ClassDef := σ.classes.find? (·.name == name)

/-- The lineages of classes, given those of the classes before them. -/
def lineagesFrom (known : List (String × List String)) : List ClassDef →
    List (String × List String)
  | [] => known
  | c :: cs =>
    let orders := c.bases.map (fun b => (known.lookup b).getD [b]) ++ [c.bases]
    let merged := mergeLineages (orders.flatten.length + 1) orders
    lineagesFrom (known ++ [(c.name, c.name :: merged)]) cs

/-- The names of a class and its ancestors in the order of look-up. -/
def lineageNames (σ : Schema) (name : String) : List String :=
  ((lineagesFrom [] σ.classes).lookup name).getD []

/-- A class and its ancestors in the order of look-up. -/
def lineage (σ : Schema) (name : String) : List ClassDef :=
  (σ.lineageNames name).filterMap σ.find?

/-- Whether instances of a class are records: the class or an ancestor declares it. -/
def isRecord (σ : Schema) (name : String) : Bool :=
  (σ.lineage name).any (·.kind == .record)

/-- Whether instances of a class are models. -/
def isModel (σ : Schema) (name : String) : Bool := (σ.lineage name).any (·.kind == .model)

/-- Fields in order, where a later field of the same name takes the earlier one's place. -/
def mergeFields (fs gs : List FieldDef) : List FieldDef :=
  gs.foldl (fun fs g =>
    if fs.any (·.name == g.name) then fs.map fun f => if f.name == g.name then g else f
    else fs ++ [g]) fs

/-- The public names that a class and its ancestors declare, oldest first, each with its most derived
declaration. -/
def declaredFields (σ : Schema) (name : String) : List FieldDef :=
  (σ.lineage name).reverse.foldl (fun fs c => mergeFields fs (c.fields.filter (isPublic ·.name))) []

/-- The fields of models, given those of the classes before them.  Every public name that is declared
is a field.  A model that does not declare it itself takes the field from the first of its bases that
has it. -/
def modelFieldsFrom (σ : Schema) (known : List (String × List FieldDef)) : List ClassDef →
    List (String × List FieldDef)
  | [] => known
  | c :: cs =>
    let inherited (f : FieldDef) : Option FieldDef :=
      c.bases.findSome? fun b => ((known.lookup b).getD []).find? (·.name == f.name)
    let fields := if σ.isModel c.name then
        (σ.declaredFields c.name).map fun f =>
          if c.fields.any (·.name == f.name) then f else (inherited f).getD f
      else []
    modelFieldsFrom σ (known ++ [(c.name, fields)]) cs

/-- The fields of records, given those of the classes before them.  A record class has the fields of
its ancestors, oldest first, and its own; any other class has those of its first ancestor that is a
record class. -/
def recordFieldsFrom (σ : Schema) (known : List (String × List FieldDef)) : List ClassDef →
    List (String × List FieldDef)
  | [] => known
  | c :: cs =>
    let fieldsOf (d : ClassDef) : List FieldDef := (known.lookup d.name).getD []
    let fields :=
      match (σ.lineage c.name).find? (·.kind == .record) with
      | some d =>
        if d.name == c.name then
          mergeFields (((σ.lineage c.name).tail.reverse.map fieldsOf).foldl mergeFields []) c.fields
        else fieldsOf d
      | none => []
    recordFieldsFrom σ (known ++ [(c.name, fields)]) cs

/-- The fields of a record or a model, oldest ancestor first. -/
def fields (σ : Schema) (name : String) : List FieldDef :=
  if σ.isModel name then ((σ.modelFieldsFrom [] σ.classes).lookup name).getD []
  else ((σ.recordFieldsFrom [] σ.classes).lookup name).getD []

/-- A field by name. -/
def field? (σ : Schema) (type name : String) : Option FieldDef :=
  (σ.fields type).find? (·.name == name)

/-- An option of models, given that of the classes before them: a class gives it itself, or else the
last of its bases that has it decides. -/
def optionsFrom (get : ModelOptions → Option Bool) (known : List (String × Option Bool)) :
    List ClassDef → List (String × Option Bool)
  | [] => known
  | c :: cs =>
    let inherited := c.bases.reverse.findSome? fun b => (known.lookup b).join
    optionsFrom get (known ++ [(c.name, (get c.options).or inherited)]) cs

/-- An option of a model, which is off unless it is given. -/
def option (σ : Schema) (name : String) (get : ModelOptions → Option Bool) : Bool :=
  (((optionsFrom get [] σ.classes).lookup name).join).getD false

/-- Whether a model refuses every assignment. -/
def isFrozenModel (σ : Schema) (name : String) : Bool := σ.option name (·.frozen)

/-- Whether the class of a record declares it frozen; a plain class inherits the declaration. -/
def isFrozenRecord (σ : Schema) (name : String) : Bool :=
  (((σ.lineage name).find? (·.kind == .record)).map (·.frozen)).getD false

/-- The names for which instances of a class have room besides a dictionary. -/
def slotNames (σ : Schema) (name : String) : List String :=
  (σ.lineage name).flatMap fun c => c.slots.getD []

/-- Whether instances of a class can hold attributes of any name. -/
def hasDictionary (σ : Schema) (name : String) : Bool :=
  (σ.lineage name).any fun c => c.slots.isNone || (c.slots.getD []).contains "__dict__"

end Schema

/-- What the look-up of a name in a class finds. -/
inductive Descriptor where
  | property (p : Property)
  | slot
  | value (v : Value)
  deriving Repr, Inhabited

/-- What a class itself, without its ancestors, holds under a name. -/
def ClassDef.descriptor? (c : ClassDef) (name : String) : Option Descriptor :=
  match c.properties.find? (·.name == name) with
  | some p => some (.property p)
  | none =>
    if (c.slots.getD []).contains name then some .slot
    else (c.classAttrs.lookup name).map .value

/-- What the look-up of a name in a class and its ancestors finds first. -/
def Schema.descriptor? (σ : Schema) (type name : String) : Option Descriptor :=
  (σ.lineage type).findSome? (·.descriptor? name)

/-- Whether instances of a class compute the attribute of a name. -/
def Schema.computes (σ : Schema) (type name : String) : Bool :=
  match σ.descriptor? type name with
  | some (.property _) => true
  | _ => false

end Dotpath

import Dotpath.Graph.Text
import Dotpath.Schema.Coercion

/-!
# Assigning attributes

How an object takes the value of an attribute.  A frozen record refuses every name that is its own;
a computed property passes the value to its setter; a model may check and coerce it; anything else
is stored if the object has room for the name.

A setter may have stored attributes before it raises an error, so a fault comes with the heap that is
left.
-/

namespace Dotpath

/-- Stored attributes with a value under a name, in place or at the end. -/
def putAttribute : List (String × Value) → String → Value → List (String × Value)
  | [], n, v => [(n, v)]
  | (m, w) :: attrs, n, v => if m = n then (n, v) :: attrs else (m, w) :: putAttribute attrs n v

/-- Whether a frozen record class of the lineage keeps instances of a class from changing a name:
its own instances all of them, those of descendants its fields. -/
def Schema.refusesName (σ : Schema) (type name : String) : Bool :=
  (σ.lineage type).any fun c => c.kind == .record && c.frozen &&
    (c.name == type || (σ.field? c.name name).isSome)

/-- Whether a model keeps a name from being assigned: all names if the model is frozen, or else
those of frozen fields. -/
def Schema.fixesName (σ : Schema) (type name : String) : Bool :=
  σ.isFrozenModel type || ((σ.field? type name).map (·.frozen)).getD false

namespace Heap

/-- Stores an attribute of the object at an address. -/
def putStored (h : Heap) (a : Address) (name : String) (v : Value) : Heap :=
  match h.get? a with
  | some (.object type attrs) => h.set a (.object type (putAttribute attrs name v))
  | _ => h

/-- Stores an attribute where the object has room for it. -/
def storePlain (σ : Schema) (h : Heap) (a : Address) (type name : String) (v : Value) :
    Except Fault Heap :=
  match σ.descriptor? type name with
  | some .slot => .ok (h.putStored a name v)
  | some (.value _) =>
    if σ.hasDictionary type then .ok (h.putStored a name v)
    else .error (.readOnlyAttribute type name)
  | _ =>
    if σ.hasDictionary type then .ok (h.putStored a name v)
    else .error (.noAttribute type name)

/-- Stores a field of a model that checks assignments. -/
def storeChecked (σ : Schema) (h : Heap) (a : Address) (type name : String) (v : Value) :
    Except Fault Heap :=
  match σ.field? type name with
  | some f =>
    match coerce? σ ((f.declared.resolve? σ.knows).getD f.declared) h v with
    | some (w, h') => if f.admits h' w then .ok (h'.putStored a name w) else .error .invalid
    | none => .error .invalid
  | none =>
    if σ.option type (·.keepsExtra) then .ok (h.putStored a name v) else .error .invalid

/-- Stores an attribute of a model that is not computed. -/
def storeInModel (σ : Schema) (h : Heap) (a : Address) (type name : String) (v : Value) :
    Except Fault Heap :=
  if σ.option type (·.validates) then storeChecked σ h a type name v
  else if (σ.field? type name).isSome || σ.option type (·.keepsExtra) then
    .ok (h.putStored a name v)
  else .error (.noField type name)

/-- A fault of an assignment with the heap that it leaves. -/
abbrev Stopped := Fault × Heap

/-- The heap that an assignment leaves. -/
def heapLeft : Except Stopped Heap → Heap
  | .ok h | .error (_, h) => h

/-- Assigns to several attributes one after the other. -/
def assignAll (assign : Heap → String → Except Stopped Heap) : Heap → List String →
    Except Stopped Heap
  | h, [] => .ok h
  | h, name :: names => assign h name >>= fun h' => assignAll assign h' names

/-- Assigns an attribute of the object at an address. -/
def assignWith (σ : Schema) : (fuel : Nat) → Heap → Address → String → Value → Except Stopped Heap
  | 0, h, _, _, _ => .error (endlessText, h)
  | fuel + 1, h, a, name, v =>
    let unchanged (r : Except Fault Heap) : Except Stopped Heap := r.mapError (·, h)
    match h.get? a with
    | some (.object type _) =>
      let checked := σ.isModel type && isPublic name
      if σ.refusesName type name then .error (.frozenField name, h)
      else if checked && σ.fixesName type name then .error (.invalid, h)
      else match σ.descriptor? type name with
        | some (.property p) =>
          match p.setter with
          | none => .error (.noSetter name type, h)
          | some s =>
            assignAll (fun h n => assignWith σ fuel h a n v) h s.stores >>= fun h' =>
              match s.raises with
              | some (kind, args) => .error (.raised kind args, h')
              | none => .ok h'
        | _ =>
          unchanged (if checked then storeInModel σ h a type name v
            else storePlain σ h a type name v)
    | some n => .error (.noAttribute n.typeName name, h)
    | none => .error (.noAttribute "object" name, h)

/-- Assigns an attribute of the object at an address. -/
def assign (σ : Schema) (h : Heap) (a : Address) (name : String) (v : Value) :
    Except Stopped Heap :=
  assignWith σ (σ.propertyCount + 2) h a name v

end Heap

end Dotpath

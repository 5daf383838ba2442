import Dotpath.Proofs.Graph.Overwriting

/-!
# What slots take

Whether a slot takes a value depends on the slot and on the value: an item must be there, a property
must be writable, and then the value must be of the declared type (`Heap.accepts?`).  Dictionaries
take everything.

A store changes none of this for any slot (`accepts?_store`), but it may change whether a value is of
a type, since the check looks into lists and dictionaries.  It never looks into objects
(`isAssignable_store_property`).
-/

namespace Dotpath

namespace Schema

variable {σ : Schema} {type name : String} {attrs : List (String × Value)}

/-- Whether instances of a plain class have room for an attribute that no frozen class refuses. -/
def hasRoom (σ : Schema) (type name : String) : Bool :=
  !σ.refusesName type name && match σ.descriptor? type name with
    | some .slot => true
    | _ => σ.hasDictionary type

/-- A property of an instance that can be written, by name. -/
def writable? (σ : Schema) (type : String) (attrs : List (String × Value)) (name : String) :
    Option PropertyInfo :=
  ((σ.properties type attrs).filter (·.writable)).find? fun p => some p.name == some name

theorem instanceNames_eq (hplain : σ.IsPlainClass type) (attrs : List (String × Value)) :
    σ.instanceNames type attrs =
      (attrs.map (·.1)).filter fun n => !(σ.slotNames type).contains n := by
  have hextra (n : String) : σ.isExtra type n = false := by rw [isExtra, hplain.not_model]; rfl
  simp [instanceNames, hextra]

/-- An assignment keeps the names of the attributes in order; a new one comes last. -/
theorem names_putAttribute (attrs : List (String × Value)) (name : String) (v : Value) :
    (putAttribute attrs name v).map (·.1) =
      if name ∈ attrs.map (·.1) then attrs.map (·.1) else attrs.map (·.1) ++ [name] := by
  induction attrs with
  | nil => simp [putAttribute]
  | cons e attrs ih =>
    by_cases he : e.1 = name
    · simp [putAttribute, he]
    · simp only [putAttribute, if_neg he, List.map_cons, ih, List.mem_cons, Ne.symm he, false_or]
      split <;> rfl

/-- Assigning a property changes no property. -/
theorem properties_putAttribute (hplain : σ.IsPlainClass type)
    (hname : σ.hasProperty type attrs name = true) (v : Value) :
    σ.properties type (putAttribute attrs name v) = σ.properties type attrs := by
  rw [hasProperty] at hname
  unfold properties at hname ⊢
  rw [instanceNames_eq hplain] at hname ⊢
  rw [instanceNames_eq hplain, names_putAttribute]
  split
  · rfl
  · -- A name that comes last is that of a property already, so nothing is added for it.
    rw [List.filter_append, listNames_append, List.filter_cons, List.filter_nil]
    split
    · rw [listNames_cons, hname, Bool.or_true, if_pos rfl]
      rfl
    · rfl

theorem writable?_putAttribute (hplain : σ.IsPlainClass type) {m : String}
    (hm : σ.hasProperty type attrs m = true) (v : Value) (name : String) :
    σ.writable? type (putAttribute attrs m v) name = σ.writable? type attrs name := by
  rw [writable?, writable?, properties_putAttribute hplain hm]

theorem hasProperty_of_writable? {p : PropertyInfo} (hp : σ.writable? type attrs name = some p) :
    σ.hasProperty type attrs name = true := by
  have hname : p.name = name := by simpa using List.find?_some hp
  have hmem := (List.mem_filter.1 (List.mem_of_find?_eq_some hp)).1
  exact List.any_eq_true.2 ⟨p, hmem, beq_of_eq hname⟩

end Schema

namespace Node

variable {σ : Schema} {s t : Slot}

/-- The declared type of the values that a slot of a node takes, which may be any; nothing where it
takes no values. -/
def accepts? (σ : Schema) : Node → Slot → Option (Option Annotation)
  | list items, .item _ n | deque items, .item _ n => if n < items.length then some none else none
  | dict .., .entry .. => some none
  | object type attrs, .property _ name =>
    if σ.hasRoom type name then (σ.writable? type attrs name).map (·.declared) else none
  | _, _ => none

theorem hasSlot_of_accepts? {n : Node} {d : Option Annotation} (hd : n.accepts? σ s = some d) :
    n.hasSlot σ s = true := by
  unfold accepts? at hd
  split at hd
  · exact decide_eq_true (Option.ite_none_right_eq_some.1 hd).1
  · exact decide_eq_true (Option.ite_none_right_eq_some.1 hd).1
  · rfl
  · obtain ⟨p, hp, -⟩ := Option.map_eq_some_iff.1 (Option.ite_none_right_eq_some.1 hd).2
    exact Schema.hasProperty_of_writable? hp
  · cases hd

/-- A put into a slot that is there changes nothing about what any slot takes. -/
theorem accepts?_putSlot {n : Node} (hn : n.IsOrdinary σ) (ht : n.hasSlot σ t = true) (v : Value)
    (s : Slot) : (n.putSlot t v).accepts? σ s = n.accepts? σ s := by
  unfold hasSlot at ht
  split at ht
  · cases s <;> simp [putSlot, accepts?]
  · cases s <;> simp [putSlot, accepts?]
  · cases s <;> rfl
  · cases s with
    | property a name => simp only [putSlot, accepts?, Schema.writable?_putAttribute hn ht]
    | item | entry => rfl
  · cases ht

end Node

/-! ## Checks of types -/

namespace Heap

section Checks

variable {σ : Schema} {h h' : Heap}

/-- Whether two heaps have the same lists, sets and dictionaries, and values of the same classes. -/
structure ChecksAlike (σ : Schema) (h h' : Heap) : Prop where
  classes : ∀ v, h'.classes σ v = h.classes σ v
  listItems? : ∀ v, h'.listItems? v = h.listItems? v
  setItems? : ∀ v, h'.setItems? v = h.setItems? v
  dictEntries? : ∀ v, h'.dictEntries? v = h.dictEntries? v

namespace ChecksAlike

theorem isInstance (hc : ChecksAlike σ h h') (v : Value) (type : String) :
    h'.isInstance σ v type = h.isInstance σ v type := by
  rw [Heap.isInstance, Heap.isInstance, hc.classes]

theorem isStrictInstance (hc : ChecksAlike σ h h') (v : Value) (type : String) :
    h'.isStrictInstance σ v type = h.isStrictInstance σ v type := by
  unfold Heap.isStrictInstance
  split <;> first | rfl | exact hc.isInstance _ _

mutual

theorem conforms (hc : ChecksAlike σ h h') (a : Annotation) (v : Value) :
    h'.conforms σ a v = h.conforms σ a v := by
  cases a with
  | any | null | literal | remarked | forward => simp only [Heap.conforms]
  | named type => rw [Heap.conforms, Heap.conforms, hc.isStrictInstance]
  | union as bars => rw [Heap.conforms, Heap.conforms, hc.conformsSome as v]
  | list a =>
    have ha : (fun i => h'.conforms σ a i) = fun i => h.conforms σ a i :=
      funext fun i => hc.conforms a i
    simp only [Heap.conforms, hc.listItems?, ha]
  | set a =>
    have ha : (fun i => h'.conforms σ a i) = fun i => h.conforms σ a i :=
      funext fun i => hc.conforms a i
    simp only [Heap.conforms, hc.setItems?, ha]
  | dict k a =>
    have hka : (fun e : Value × Value => h'.conforms σ k e.1 && h'.conforms σ a e.2) =
        fun e => h.conforms σ k e.1 && h.conforms σ a e.2 :=
      funext fun e => by rw [hc.conforms k e.1, hc.conforms a e.2]
    simp only [Heap.conforms, hc.dictEntries?, hka]
  | tuple as =>
    simp only [Heap.conforms]
    split
    · exact hc.conformsEach as _
    · rfl
  | tupleOf a =>
    have ha : (fun i => h'.conforms σ a i) = fun i => h.conforms σ a i :=
      funext fun i => hc.conforms a i
    simp only [Heap.conforms, ha]

theorem conformsSome (hc : ChecksAlike σ h h') (as : List Annotation) (v : Value) :
    h'.conformsSome σ as v = h.conformsSome σ as v := by
  cases as with
  | nil => rw [Heap.conformsSome, Heap.conformsSome]
  | cons a as => rw [Heap.conformsSome, Heap.conformsSome, hc.conforms a v, hc.conformsSome as v]

theorem conformsEach (hc : ChecksAlike σ h h') (as : List Annotation) (vs : List Value) :
    h'.conformsEach σ as vs = h.conformsEach σ as vs := by
  cases as with
  | nil => cases vs <;> simp only [Heap.conformsEach]
  | cons a as =>
    cases vs with
    | nil => simp only [Heap.conformsEach]
    | cons v vs =>
      rw [Heap.conformsEach, Heap.conformsEach, hc.conforms a v, hc.conformsEach as vs]

end

theorem isAssignable (hc : ChecksAlike σ h h') (d : Option Annotation) (v : Value) :
    h'.isAssignable σ d v = h.isAssignable σ d v := by
  unfold Heap.isAssignable
  simp only [hc.isInstance, hc.conforms]

end ChecksAlike

/-- The check of a type does not look into objects, so an attribute makes no difference to it. -/
theorem checksAlike_store_property (h : Heap) (a : Address) (name : String) (v : Value) :
    ChecksAlike σ h (h.store (.property a name) v) := by
  have hget (b : Address) : (h.store (.property a name) v).get? b = h.get? b ∨
      ∃ type attrs, h.get? b = some (.object type attrs) ∧
        (h.store (.property a name) v).get? b =
          some (.object type (putAttribute attrs name v)) := by
    rcases get?_store h (.property a name) v b with hsame | ⟨n, hn, hput⟩
    · exact .inl hsame
    · cases n with
      | object type attrs => exact .inr ⟨type, attrs, hn, hput⟩
      | _ => exact .inl (hput.trans hn.symm)
  constructor
  all_goals
    intro u
    cases u with
    | ref b =>
      rcases hget b with hsame | ⟨type, attrs, hn, hput⟩
      · simp only [Heap.classes, Heap.listItems?, Heap.setItems?, Heap.dictEntries?, hsame]
      · simp [Heap.classes, Heap.listItems?, Heap.setItems?, Heap.dictEntries?, hn, hput,
          Node.classes]
    | _ => rfl

theorem isAssignable_store_property (h : Heap) (a : Address) (name : String) (x : Value)
    (d : Option Annotation) (v : Value) :
    (h.store (.property a name) x).isAssignable σ d v = h.isAssignable σ d v :=
  (checksAlike_store_property h a name x).isAssignable d v

end Checks

/-! ## Checked stores -/

variable {σ : Schema} {h : Heap} {s t : Slot}

/-- The declared type of the values that a slot takes, which may be any; nothing where it takes no
values. -/
def accepts? (σ : Schema) (h : Heap) (s : Slot) : Option (Option Annotation) :=
  (h.get? s.address).bind (·.accepts? σ s)

/-- The heap with a value in a slot that takes it. -/
def storeChecked? (σ : Schema) (h : Heap) (s : Slot) (v : Value) : Option Heap :=
  (h.accepts? σ s).bind fun d => if h.isAssignable σ d v then some (h.store s v) else none

theorem storeChecked?_eq_some {v : Value} {h' : Heap} :
    h.storeChecked? σ s v = some h' ↔
      ∃ d, h.accepts? σ s = some d ∧ h.isAssignable σ d v = true ∧ h.store s v = h' := by
  simp [storeChecked?, Option.bind_eq_some_iff]

/-- A store in a slot that takes values changes nothing about what any slot takes. -/
theorem accepts?_store (hh : h.IsOrdinary σ) {d : Option Annotation}
    (ht : h.accepts? σ t = some d) (v : Value) (s : Slot) :
    (h.store t v).accepts? σ s = h.accepts? σ s := by
  obtain ⟨n, hn, hd⟩ := Option.bind_eq_some_iff.1 ht
  unfold accepts?
  by_cases ha : t.address = s.address
  · rw [← ha, get?_store_self hn, hn, Option.bind_some, Option.bind_some,
      Node.accepts?_putSlot (hh hn) (Node.hasSlot_of_accepts? hd)]
  · rw [get?_store_of_ne ha]

/-- A slot takes anything, unless it is an attribute. -/
theorem eq_none_of_accepts? {d : Option Annotation} (hd : h.accepts? σ s = some d)
    (hs : ∀ a name, s ≠ .property a name) : d = none := by
  obtain ⟨n, -, hd⟩ := Option.bind_eq_some_iff.1 hd
  unfold Node.accepts? at hd
  split at hd
  · exact (Option.some.inj (Option.ite_none_right_eq_some.1 hd).2).symm
  · exact (Option.some.inj (Option.ite_none_right_eq_some.1 hd).2).symm
  · exact (Option.some.inj hd).symm
  · exact absurd rfl (hs _ _)
  · cases hd

/-- What a slot held makes no difference to what it takes. -/
theorem storeChecked?_store_self (hh : h.IsOrdinary σ) (hs : s.isSimple = true)
    {d : Option Annotation} (hd : h.accepts? σ s = some d) (v w : Value) :
    (h.store s v).storeChecked? σ s w = h.storeChecked? σ s w := by
  rw [storeChecked?, storeChecked?, accepts?_store hh hd, hd, Option.bind_some, Option.bind_some,
    store_store_self hs]
  cases s with
  | property a name => rw [isAssignable_store_property]
  | item | entry =>
    obtain rfl := eq_none_of_accepts? hd (by simp)
    rfl

/-- Assigning an attribute of a plain instance stores it where there is room. -/
theorem assign_toOption {a : Address} {type name : String} {attrs : List (String × Value)}
    (hplain : σ.IsPlainClass type) (hget : h.get? a = some (.object type attrs)) (v : Value) :
    (h.assign σ a name v).toOption =
      if σ.hasRoom type name then some (h.store (.property a name) v) else none := by
  have hstore : h.putStored a name v = h.store (.property a name) v := by
    rw [putStored, store, Slot.address, hget]
    rfl
  have hproperty := Schema.descriptor?_ne_property hplain.no_properties name
  rw [assign, assignWith, hget, Schema.hasRoom]
  dsimp only
  rw [hplain.not_model, Bool.false_and, if_neg Bool.false_ne_true, storePlain, hstore]
  cases σ.refusesName type name with
  | true => rfl
  | false =>
    cases hd : σ.descriptor? type name with
    | none => cases σ.hasDictionary type <;> rfl
    | some d =>
      cases d with
      | property p => exact absurd hd (hproperty p)
      | slot => rfl
      | value u => cases σ.hasDictionary type <;> rfl

section Writes

variable {a : Address} {type name : String} {attrs : List (String × Value)} {m : PropertyInfo}
  {v : Value}

section Listed

variable {ps : List PropertyInfo} (hget : h.get? a = some (.object type attrs))
  (hps : h.propertiesOf σ (.ref a) = .ok ps)

include hget hps

/-- A value that is not of the declared type of a property is not assigned. -/
theorem writeProperty_of_mistyped
    (hm : (ps.filter (·.writable)).find? (fun p => some p.name == some name) = some m)
    (hv : h.isAssignable σ m.declared v = false) :
    h.writeProperty σ (.ref a) (some name) v = .error (h.illegal (.ref a) m v, h) := by
  have hempty := List.isEmpty_eq_false_iff.2 (List.ne_nil_of_mem (List.mem_of_find?_eq_some hm))
  rw [writeProperty, hps]
  dsimp only [Except.mapError, bind, Except.bind]
  rw [object?_of_get? hget, hm, hempty, if_neg Bool.false_ne_true]
  dsimp only
  rw [hv, if_neg Bool.false_ne_true]

/-- A value of the declared type is assigned; what a check of the object refuses counts as mistyped. -/
theorem writeProperty_eq_assign
    (hm : (ps.filter (·.writable)).find? (fun p => some p.name == some name) = some m)
    (hv : h.isAssignable σ m.declared v = true) :
    h.writeProperty σ (.ref a) (some name) v = (h.assign σ a m.name v).mapError fun (f, h') =>
      (if f.kind.isA .validation then h.illegal (.ref a) m v else f, h') := by
  have hempty := List.isEmpty_eq_false_iff.2 (List.ne_nil_of_mem (List.mem_of_find?_eq_some hm))
  rw [writeProperty, hps]
  dsimp only [Except.mapError, bind, Except.bind]
  rw [object?_of_get? hget, hm, hempty, if_neg Bool.false_ne_true]
  dsimp only
  rw [hv, if_pos rfl]
  cases h.assign σ a m.name v <;> rfl

theorem writeProperty_of_not_writable
    (hm : (ps.filter (·.writable)).find? (fun p => some p.name == some name) = none) :
    (h.writeProperty σ (.ref a) (some name) v).toOption = none := by
  rw [writeProperty, hps]
  dsimp only [Except.mapError, bind, Except.bind]
  rw [object?_of_get? hget, hm]
  split <;> rfl

end Listed

/-- Writing a property of a plain instance is a checked store. -/
theorem writeProperty_toOption (hplain : σ.IsPlainClass type)
    (hget : h.get? a = some (.object type attrs)) (name : String) (v : Value) :
    (h.writeProperty σ (.ref a) (some name) v).toOption =
      h.storeChecked? σ (.property a name) v := by
  have haccepts : h.accepts? σ (.property a name) =
      if σ.hasRoom type name then (σ.writable? type attrs name).map (·.declared) else none := by
    rw [accepts?, Slot.address, hget]
    rfl
  have hps := propertiesOf_of_get? hget (hplain.computes_eq_false _) (hplain.computes_eq_false _)
  rw [storeChecked?, haccepts]
  cases hm : σ.writable? type attrs name with
  | none =>
    rw [writeProperty_of_not_writable hget hps hm]
    split <;> rfl
  | some m =>
    have hname : m.name = name := by simpa using List.find?_some hm
    have hassign := @assign_toOption σ h a type name attrs hplain hget v
    cases hv : h.isAssignable σ m.declared v with
    | false =>
      rw [writeProperty_of_mistyped hget hps hm hv]
      cases σ.hasRoom type name <;> simp [hv, Except.toOption]
    | true =>
      have htyped : (h.writeProperty σ (.ref a) (some name) v).toOption =
          (h.assign σ a m.name v).toOption := by
        rw [writeProperty_eq_assign hget hps hm hv]
        cases h.assign σ a m.name v <;> rfl
      rw [htyped, hname, hassign]
      cases σ.hasRoom type name <;> simp [hv]

end Writes

end Heap

end Dotpath

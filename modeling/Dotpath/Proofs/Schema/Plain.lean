import Dotpath.Proofs.Graph.Stores

/-!
# Classes without computed properties

The instances of a plain class store every attribute in themselves: the class is no model, and
neither it nor an ancestor computes a property.  Reading a property of such an instance gives what
is stored under the name, or what the class holds under it (`readProperty_eq`); writing one
stores the value (`writeProperty_eq_ok`).  The stored attributes decide which properties there are
only by their names, and an assignment keeps all of them (`hasProperty_put_self`,
`hasProperty_put_of_ne`).
-/

namespace Dotpath

/-- Whether the instances of a class store their attributes in themselves. -/
structure Schema.IsPlainClass (σ : Schema) (type : String) : Prop where
  not_model : σ.isModel type = false
  no_properties : ∀ c ∈ σ.lineage type, c.properties = []

namespace Schema

variable {σ : Schema} {type : String} {attrs : List (String × Value)} {name : String}

theorem isPlainClass_of_isEmpty (hmodel : σ.isModel type = false)
    (hnone : ∀ c ∈ σ.lineage type, c.properties.isEmpty = true) : σ.IsPlainClass type :=
  ⟨hmodel, fun c hc => List.isEmpty_iff.1 (hnone c hc)⟩

/-- Whether an instance with the given attributes has a property. -/
def hasProperty (σ : Schema) (type : String) (attrs : List (String × Value)) (name : String) :
    Bool :=
  (σ.properties type attrs).any (·.name == name)

/-- What an instance of a plain class holds under a name, or else its class. -/
def attribute? (σ : Schema) (type : String) (attrs : List (String × Value)) (name : String) :
    Option Value :=
  match σ.descriptor? type name with
  | some (.value v) => some ((attrs.lookup name).getD v)
  | _ => attrs.lookup name

theorem descriptor?_ne_property (hnone : ∀ c ∈ σ.lineage type, c.properties = []) (name : String)
    (p : Property) : σ.descriptor? type name ≠ some (.property p) := by
  intro h
  obtain ⟨c, hc, hp⟩ := List.exists_of_findSome?_eq_some h
  rw [ClassDef.descriptor?, hnone c hc] at hp
  dsimp only [List.find?_nil] at hp
  split at hp
  · cases hp
  · cases hl : c.classAttrs.lookup name <;> simp [hl] at hp

theorem computes_eq_false (hstored : ∀ p, σ.descriptor? type name ≠ some (.property p)) :
    σ.computes type name = false := by
  rw [computes]
  split
  · next p hp => exact absurd hp (hstored p)
  · rfl

theorem IsPlainClass.computes_eq_false (hplain : σ.IsPlainClass type) (name : String) :
    σ.computes type name = false :=
  Schema.computes_eq_false (descriptor?_ne_property hplain.no_properties name)

/-! ## Names of properties -/

theorem mem_instanceNames :
    name ∈ σ.instanceNames type attrs ↔
      name ∈ attrs.map (·.1) ∧ name ∉ σ.slotNames type := by
  simp only [instanceNames, List.mem_append, List.mem_filter]
  cases σ.isExtra type name <;> simp

/-- What is added to several properties are the public names among those that are given. -/
theorem exists_mem_listNames {info : String → PropertyInfo} (hinfo : ∀ n, (info n).name = n)
    {ps : List PropertyInfo} {names : List String} :
    (∃ p ∈ listNames info ps names, p.name = name) ↔
      (∃ p ∈ ps, p.name = name) ∨ isPublic name = true ∧ name ∈ names := by
  induction names generalizing ps with
  | nil => simp [listNames]
  | cons n ns ih =>
    rw [listNames_cons, ih, List.mem_cons]
    split
    · next hskip =>
      rw [Bool.or_eq_true, List.any_eq_true] at hskip
      constructor
      · rintro (h | ⟨hpub, h⟩)
        · exact .inl h
        · exact .inr ⟨hpub, .inr h⟩
      · rintro (h | ⟨hpub, rfl | h⟩)
        · exact .inl h
        · rcases hskip with hskip | ⟨p, hp, hname⟩
          · simp [hpub] at hskip
          · exact .inl ⟨p, hp, eq_of_beq hname⟩
        · exact .inr ⟨hpub, h⟩
    · next hadd =>
      have hn : isPublic n = true := by
        cases hn : isPublic n with
        | true => rfl
        | false => simp [hn] at hadd
      constructor
      · rintro (⟨p, hp, hname⟩ | ⟨hpub, h⟩)
        · rcases List.mem_append.1 hp with hp | hp
          · exact .inl ⟨p, hp, hname⟩
          · obtain rfl := List.mem_singleton.1 hp
            obtain rfl : n = name := (hinfo n).symm.trans hname
            exact .inr ⟨hn, .inl rfl⟩
        · exact .inr ⟨hpub, .inr h⟩
      · rintro (⟨p, hp, hname⟩ | ⟨hpub, rfl | h⟩)
        · exact .inl ⟨p, List.mem_append_left _ hp, hname⟩
        · exact .inl ⟨_, List.mem_append_right _ (List.mem_singleton_self _), hinfo name⟩
        · exact .inr ⟨hpub, h⟩

/-- The properties of an instance are those that its class declares, and the public names in its
dictionary. -/
theorem hasProperty_iff :
    σ.hasProperty type attrs name = true ↔
      (∃ p ∈ σ.declaredProperties type, p.name = name) ∨
        isPublic name = true ∧ name ∈ σ.instanceNames type attrs := by
  unfold hasProperty properties
  rw [List.any_eq_true]
  simp only [beq_iff_eq]
  exact exists_mem_listNames fun _ => rfl

theorem isEmpty_of_hasProperty (h : σ.hasProperty type attrs name = true) :
    (σ.properties type attrs).isEmpty = false := by
  obtain ⟨p, hp, -⟩ := List.any_eq_true.1 h
  exact List.isEmpty_eq_false_iff.2 (List.ne_nil_of_mem hp)

/-! ## Assignments -/

theorem mem_names_putAttribute {n : String} (v : Value) :
    n ∈ (putAttribute attrs name v).map (·.1) ↔ n = name ∨ n ∈ attrs.map (·.1) := by
  induction attrs with
  | nil => simp [putAttribute]
  | cons e attrs ih =>
    rw [putAttribute]
    split
    · next he => simp [he]
    · simp only [List.map_cons, List.mem_cons, ih]
      exact or_left_comm

/-- An assignment adds the assigned name to the properties, and no other. -/
theorem hasProperty_put_of_ne {n : String} (hne : name ≠ n) (v : Value) :
    σ.hasProperty type (putAttribute attrs name v) n = σ.hasProperty type attrs n := by
  rw [Bool.eq_iff_iff, hasProperty_iff, hasProperty_iff, mem_instanceNames, mem_instanceNames,
    mem_names_putAttribute, or_iff_right (Ne.symm hne)]

theorem hasProperty_put_self (h : σ.hasProperty type attrs name = true) (v : Value) :
    σ.hasProperty type (putAttribute attrs name v) name = true := by
  rw [hasProperty_iff, mem_instanceNames] at h ⊢
  rcases h with h | ⟨hpub, -, hslot⟩
  · exact .inl h
  · exact .inr ⟨hpub, (mem_names_putAttribute v).2 (.inl rfl), hslot⟩

theorem lookup_putAttribute_self (v : Value) : (putAttribute attrs name v).lookup name = some v := by
  induction attrs with
  | nil => simp [putAttribute]
  | cons e attrs ih =>
    rw [putAttribute]
    split
    · simp
    · next he => rw [List.lookup_cons, beq_false_of_ne (Ne.symm he), ih]

theorem lookup_putAttribute_of_ne {n : String} (hne : name ≠ n) (v : Value) :
    (putAttribute attrs name v).lookup n = attrs.lookup n := by
  induction attrs with
  | nil => simp [putAttribute, Ne.symm hne]
  | cons e attrs ih =>
    rw [putAttribute]
    split
    · next he =>
      have hen : (n == e.1) = false := by rw [he]; exact beq_false_of_ne (Ne.symm hne)
      rw [List.lookup_cons, List.lookup_cons, beq_false_of_ne (Ne.symm hne), hen]
    · rw [List.lookup_cons, List.lookup_cons, ih]

theorem attribute?_put_self (v : Value) :
    σ.attribute? type (putAttribute attrs name v) name = some v := by
  unfold attribute?
  rw [lookup_putAttribute_self]
  split <;> rfl

theorem attribute?_put_of_ne {n : String} (hne : name ≠ n) (v : Value) :
    σ.attribute? type (putAttribute attrs name v) n = σ.attribute? type attrs n := by
  unfold attribute?
  rw [lookup_putAttribute_of_ne hne]

end Schema

/-! ## Reading and writing -/

namespace Heap

variable {σ : Schema} {h : Heap} {a : Address} {type : String} {attrs : List (String × Value)}

theorem fuel_pos (σ : Schema) (h : Heap) (v : Value) : 0 < h.fuel σ v := by
  unfold fuel
  exact Nat.mul_pos (by omega) (by omega)

theorem fuel_eq_add_two (σ : Schema) (h : Heap) (v : Value) : ∃ k, h.fuel σ v = k + 2 := by
  refine ⟨h.fuel σ v - 2, (Nat.sub_add_cancel ?_).symm⟩
  unfold fuel
  exact Nat.le_trans (by omega : 2 ≤ 2 * 5) (Nat.mul_le_mul (by omega) (by omega))

theorem text_scalar (σ : Schema) (h : Heap) (x : Scalar) :
    h.text σ (.scalar x) = scalarText x := by
  obtain ⟨k, hk⟩ := fuel_eq_add_two σ h (.scalar x)
  rw [text, hk, textWith]

/-- An attribute that no property of the class computes is what is stored. -/
theorem attributeOf_of_stored {name : String}
    (hstored : ∀ p, σ.descriptor? type name ≠ some (.property p))
    (hget : h.get? a = some (.object type attrs)) :
    h.attributeOf σ a name = match σ.attribute? type attrs name with
      | some v => .ok v
      | none => .error (.noAttribute type name) := by
  unfold attributeOf
  obtain ⟨k, hk⟩ := Nat.exists_eq_succ_of_ne_zero (Nat.ne_of_gt (fuel_pos σ h (.ref a)))
  rw [hk, attributeWith, hget, Schema.attribute?]
  dsimp only
  cases hd : σ.descriptor? type name with
  | none => rfl
  | some d =>
    cases d with
    | property p => exact absurd hd (hstored p)
    | slot => rfl
    | value v => rfl

theorem attributeOf_eq (hplain : σ.IsPlainClass type)
    (hget : h.get? a = some (.object type attrs)) (name : String) :
    h.attributeOf σ a name = match σ.attribute? type attrs name with
      | some v => .ok v
      | none => .error (.noAttribute type name) :=
  attributeOf_of_stored (Schema.descriptor?_ne_property hplain.no_properties name) hget

/-- Reading a property of an object reads the attribute. -/
theorem readProperty_of_get? (hget : h.get? a = some (.object type attrs))
    (hdict : σ.computes type dictionaryName = false)
    (hextras : σ.computes type extrasName = false) (name : String) :
    h.readProperty σ (.ref a) (some name) =
      if (σ.properties type attrs).isEmpty then .error (.noProperties type false)
      else if σ.hasProperty type attrs name then h.attributeOf σ a name
      else .error (.noProperty type name false) := by
  have htype : h.typeName (.ref a) = type := by
    rw [typeName, hget]
    rfl
  rw [readProperty, propertiesOf_of_get? hget hdict hextras, object?_of_get? hget, htype]
  change (if _ then _ else _) = _
  congr 1
  cases hf : (σ.properties type attrs).find? (fun p => some p.name == some name) with
  | none =>
    have hno : σ.hasProperty type attrs name = false := by
      rw [Schema.hasProperty, List.any_eq_false]
      intro p hp
      simpa using List.find?_eq_none.1 hf p hp
    rw [hno]
    rfl
  | some p =>
    have hmem := List.mem_of_find?_eq_some hf
    have hname : p.name = name := by simpa using List.find?_some hf
    have hyes : σ.hasProperty type attrs name = true :=
      List.any_eq_true.2 ⟨p, hmem, beq_of_eq hname⟩
    rw [if_pos hyes, ← hname]

/-- Reading a property of a plain instance. -/
theorem readProperty_eq (hplain : σ.IsPlainClass type)
    (hget : h.get? a = some (.object type attrs)) (name : String) :
    h.readProperty σ (.ref a) (some name) =
      if (σ.properties type attrs).isEmpty then .error (.noProperties type false)
      else if σ.hasProperty type attrs name then
        match σ.attribute? type attrs name with
        | some v => .ok v
        | none => .error (.noAttribute type name)
      else .error (.noProperty type name false) := by
  rw [readProperty_of_get? hget (hplain.computes_eq_false _) (hplain.computes_eq_false _),
    attributeOf_eq hplain hget]

theorem readProperty_toOption (hplain : σ.IsPlainClass type)
    (hget : h.get? a = some (.object type attrs)) (name : String) :
    (h.readProperty σ (.ref a) (some name)).toOption =
      if σ.hasProperty type attrs name then σ.attribute? type attrs name else none := by
  rw [readProperty_eq hplain hget]
  cases hyes : σ.hasProperty type attrs name with
  | true =>
    rw [if_neg (by rw [Schema.isEmpty_of_hasProperty hyes]; exact Bool.false_ne_true)]
    cases σ.attribute? type attrs name <;> rfl
  | false => split <;> rfl

theorem assign_eq_ok {h' : Heap} {name : String} {v : Value} (hplain : σ.IsPlainClass type)
    (hget : h.get? a = some (.object type attrs)) (hassign : h.assign σ a name v = .ok h') :
    h' = h.set a (.object type (putAttribute attrs name v)) := by
  obtain ⟨h'', hok, -, hstores⟩ | ⟨f, herror⟩ := assignWith_of_stored (σ.propertyCount + 2) hget
    (Schema.descriptor?_ne_property hplain.no_properties name) v
  · obtain rfl := Except.ok.inj (hok.symm.trans hassign)
    cases hstores with
    | given => rw [putStored, hget]
    | coerced hmodel =>
      rw [hplain.not_model] at hmodel
      cases hmodel
  · cases herror.symm.trans hassign

/-- Where a class computes nothing, an assignment to a property that is stopped leaves the heap. -/
theorem eq_of_writeProperty_eq_error {h' : Heap} {c v : Value} {segment : Segment} {f : Fault}
    (hnone : ∀ a type attrs, c = .ref a → h.get? a = some (.object type attrs) →
      ∀ d ∈ σ.lineage type, d.properties = [])
    (hwrite : h.writeProperty σ c segment v = .error (f, h')) : h' = h := by
  rcases writeProperty_cases σ h c segment v with
    ⟨f', hf⟩ | ⟨a, type, attrs, ps, p, hc, hget, -, -, -, -, -, hassign⟩
  · cases hf.symm.trans hwrite
    rfl
  · rw [hassign] at hwrite
    obtain ⟨h'', hok, -⟩ | ⟨f', herror⟩ := assignWith_of_stored (σ.propertyCount + 2) hget
      (Schema.descriptor?_ne_property (hnone a type attrs hc hget) p.name) v
    · rw [assign, hok] at hwrite
      cases hwrite
    · rw [assign, herror] at hwrite
      cases hwrite
      rfl

/-- Writing a property of a plain instance stores the value. -/
theorem writeProperty_eq_ok {h' : Heap} {name : String} {v : Value}
    (hplain : σ.IsPlainClass type) (hget : h.get? a = some (.object type attrs))
    (hwrite : h.writeProperty σ (.ref a) (some name) v = .ok h') :
    σ.hasProperty type attrs name = true ∧
      h' = h.set a (.object type (putAttribute attrs name v)) := by
  obtain ⟨_, _, _, ps, p, hc, hget', hps, hp, -, hname, -, hassign⟩ :=
    exists_assign_of_writeProperty hwrite
  cases hc
  cases hget.symm.trans hget'
  cases hname
  cases (propertiesOf_of_get? hget (hplain.computes_eq_false _) (hplain.computes_eq_false _)).symm.trans
    hps
  exact ⟨List.any_eq_true.2 ⟨p, hp, beq_self_eq_true _⟩, assign_eq_ok hplain hget hassign⟩

end Heap

end Dotpath

import Mathlib.Data.List.Nodup
import Dotpath.Proofs.Schema.Declared

/-!
# Read-only properties

What an object has under a name is decided by the first class of its lineage that holds the name.  The
passes that collect properties take no notice of this: each goes through the whole lineage, and the
last one that finds the name decides.  So where a class puts a property without a setter in the place
of a slot or a field of an ancestor, the pass over the slots or the fields lists the name as writable
again (`Schema.reopens`).

A read-only name is listed exactly as the later passes say (`writable_eq_reopens`).
-/

namespace Dotpath

/-! ## Finding by name -/

section Find

variable {α : Type} {name : α → String} {xs : List α} {x : α} {n : String}

theorem find?_eq_some_of_nodup (hxs : (xs.map name).Nodup) (hx : x ∈ xs) (hn : name x = n) :
    xs.find? (fun y => name y == n) = some x := by
  cases hfind : xs.find? (fun y => name y == n) with
  | none => exact absurd (beq_of_eq hn) (List.find?_eq_none.1 hfind x hx)
  | some y =>
    have hy : name y = name x := (eq_of_beq (List.find?_some hfind :)).trans hn.symm
    exact congrArg some (List.inj_on_of_nodup_map hxs (List.mem_of_find?_eq_some hfind) hx hy)

/-- A pass over a list that finds no property of a name has no element of the name to go over. -/
theorem find?_eq_none_of_pass (name : α → String) {info : α → PropertyInfo}
    (hinfo : ∀ y, (info y).name = name y) (hpub : isPublic n = true)
    (hnone : ∀ q ∈ xs.map info, isPublic q.name = true → q.name ≠ n) :
    xs.find? (fun y => name y == n) = none := by
  rw [List.find?_eq_none]
  intro y hy hyn
  obtain rfl := eq_of_beq hyn
  rw [← hinfo y] at hpub hnone
  exact hnone _ (List.mem_map_of_mem hy) hpub rfl

end Find

/-- The last property of a name that a pass finds is the one that it leaves. -/
theorem eq_of_mem_overrideProperties {ps front back : List PropertyInfo} {p q : PropertyInfo}
    (hpub : isPublic q.name = true) (hback : ∀ r ∈ back, r.name ≠ q.name) (hname : p.name = q.name)
    (hp : p ∈ overrideProperties ps (front ++ q :: back)) : p = q := by
  rw [overrideProperties, List.filter_append,
    List.filter_cons_of_pos (p := fun r : PropertyInfo => isPublic r.name) hpub, List.foldl_append,
    List.foldl_cons] at hp
  rcases mem_foldl_overrideProperty hp with hp | ⟨hp, -⟩
  · exact absurd hname (hback p (List.mem_of_mem_filter hp))
  · rcases mem_overrideProperty hp with rfl | ⟨-, hne⟩
    · rfl
    · exact absurd hname.symm hne

namespace Schema

variable {σ : Schema} {type name : String} {attrs : List (String × Value)} {q : Property}
  {p : PropertyInfo}

/-- Whether no class of a lineage has two properties of one name. -/
def HasDistinctProperties (σ : Schema) (type : String) : Prop :=
  ∀ c ∈ σ.lineage type, (c.properties.map (·.name)).Nodup

instance : Decidable (σ.HasDistinctProperties type) :=
  inferInstanceAs (Decidable (∀ c ∈ σ.lineage type, (c.properties.map (·.name)).Nodup))

/-- Whether the last of the passes over slots, fields and shown properties that lists a name lists it
as writable. -/
def reopens (σ : Schema) (type name : String) : Bool :=
  match (σ.shownProperties type).find? (·.name == name) with
  | some q => q.setter.isSome
  | none =>
    match σ.field? type name with
    | some f =>
      if σ.isModel type then !(σ.isFrozenModel type || f.frozen) else !σ.isFrozenRecord type
    | none => (σ.slotNames type).contains name

/-! ## The pass over properties -/

theorem find?_of_descriptor? {c : ClassDef} (hq : c.descriptor? name = some (.property q)) :
    c.properties.find? (·.name == name) = some q := by
  rw [ClassDef.descriptor?] at hq
  cases hfind : c.properties.find? (·.name == name) with
  | some r =>
    rw [hfind] at hq
    cases hq
    rfl
  | none =>
    rw [hfind] at hq
    dsimp only at hq
    split at hq
    · cases hq
    · obtain ⟨v, -, hv⟩ := Option.map_eq_some_iff.1 hq
      cases hv

theorem ne_of_descriptor?_eq_none {c : ClassDef} (hc : c.descriptor? name = none) :
    ∀ r ∈ c.properties, r.name ≠ name := by
  intro r hr hrn
  rw [ClassDef.descriptor?] at hc
  cases hfind : c.properties.find? (·.name == name) with
  | some r' =>
    rw [hfind] at hc
    cases hc
  | none => exact List.find?_eq_none.1 hfind r hr (beq_of_eq hrn)

/-- What the pass over the properties of a class finds for one of them. -/
def computedProperty (σ : Schema) (q : Property) : PropertyInfo :=
  ⟨q.name, σ.setterAnnotation q, q.setter.isSome⟩

/-- The property that a look-up finds is the last one of its name that the first pass finds. -/
theorem computedProperties_eq (hdistinct : σ.HasDistinctProperties type)
    (hq : σ.descriptor? type name = some (.property q)) :
    q.name = name ∧ ∃ front back, σ.computedProperties type =
      front ++ σ.computedProperty q :: back ∧ ∀ r ∈ back, r.name ≠ name := by
  obtain ⟨derived, c, older, hlineage, hc, hderived⟩ := List.findSome?_eq_some_iff.1 hq
  obtain ⟨hname, fs, gs, hprops, -⟩ := List.find?_eq_some_iff_append.1 (find?_of_descriptor? hc)
  have hname : q.name = name := eq_of_beq hname
  refine ⟨hname, (older.reverse.flatMap fun c => c.properties.map σ.computedProperty) ++
    fs.map σ.computedProperty, gs.map σ.computedProperty ++
    derived.reverse.flatMap fun c => c.properties.map σ.computedProperty, ?_, fun r hr => ?_⟩
  · have hpass : σ.computedProperties type =
        (σ.lineage type).reverse.flatMap fun c => c.properties.map σ.computedProperty := rfl
    rw [hpass, hlineage, List.reverse_append, List.reverse_cons, List.flatMap_append,
      List.flatMap_append, List.flatMap_singleton, hprops, List.map_append, List.map_cons]
    simp only [List.append_assoc, List.cons_append]
  · rcases List.mem_append.1 hr with hr | hr
    · obtain ⟨u, hu, rfl⟩ := List.mem_map.1 hr
      have hnodup := hdistinct c (by rw [hlineage]; simp)
      rw [hprops, List.map_append, List.map_cons, List.nodup_append] at hnodup
      have hnot := (List.nodup_cons.1 hnodup.2.1).1
      rw [hname] at hnot
      exact fun hun => hnot (List.mem_map.2 ⟨u, hu, hun⟩)
    · obtain ⟨d, hd, hr⟩ := List.mem_flatMap.1 hr
      obtain ⟨u, hu, rfl⟩ := List.mem_map.1 hr
      exact ne_of_descriptor?_eq_none (hderived d (List.mem_reverse.1 hd)) u hu

/-! ## The later passes -/

theorem mem_slotProperties (hp : p ∈ σ.slotProperties type) :
    p.name ∈ σ.slotNames type ∧ p.writable = true := by
  obtain ⟨c, hc, hp⟩ := List.mem_flatMap.1 hp
  obtain ⟨n, hn, rfl⟩ := List.mem_map.1 hp
  exact ⟨List.mem_flatMap.2 ⟨c, List.mem_reverse.1 hc, hn⟩, rfl⟩

theorem exists_slotProperty (hname : name ∈ σ.slotNames type) :
    ∃ p ∈ σ.slotProperties type, p.name = name := by
  obtain ⟨c, hc, hn⟩ := List.mem_flatMap.1 hname
  exact ⟨_, List.mem_flatMap.2 ⟨c, List.mem_reverse.2 hc, List.mem_map_of_mem hn⟩, rfl⟩

/-- Only records have fields in the table of record fields. -/
theorem isRecord_of_recordFields {cs : List ClassDef} {known : List (String × List FieldDef)}
    (hknown : ∀ e ∈ known, e.2 ≠ [] → σ.isRecord e.1 = true) :
    ∀ e ∈ σ.recordFieldsFrom known cs, e.2 ≠ [] → σ.isRecord e.1 = true := by
  induction cs generalizing known with
  | nil => exact hknown
  | cons c cs ih =>
    rw [recordFieldsFrom]
    refine ih fun e he hne => ?_
    rcases List.mem_append.1 he with he | he
    · exact hknown e he hne
    obtain rfl := List.mem_singleton.1 he
    dsimp only at hne
    split at hne
    · next d hd =>
      have hkind := List.find?_some hd
      exact List.any_eq_true.2 ⟨d, List.mem_of_find?_eq_some hd, hkind⟩
    · exact absurd rfl hne

theorem isRecord_of_field? (hmodel : σ.isModel type = false) {f : FieldDef}
    (hf : σ.field? type name = some f) : σ.isRecord type = true := by
  rw [field?, fields, hmodel, if_neg Bool.false_ne_true] at hf
  cases hl : (σ.recordFieldsFrom [] σ.classes).lookup type with
  | none =>
    rw [hl] at hf
    cases hf
  | some fs =>
    rw [hl] at hf
    refine isRecord_of_recordFields (by simp) _ (mem_of_lookup hl) ?_
    exact List.ne_nil_of_mem (List.mem_of_find?_eq_some hf)

theorem nodup_shownProperties : ((σ.shownProperties type).map (·.name)).Nodup := by
  have hfold (qs ps : List Property) (hps : (ps.map (·.name)).Nodup) :
      ((qs.foldl (fun ps p =>
        if ps.any (·.name == p.name) then ps.map fun q => if q.name == p.name then p else q
        else ps ++ [p]) ps).map (·.name)).Nodup := by
    induction qs generalizing ps with
    | nil => exact hps
    | cons q qs ih => exact ih _ (nodup_replace_or_add Property.name q hps)
  rw [shownProperties]
  split
  · exact hfold _ [] List.nodup_nil
  · exact List.nodup_nil

theorem reopens_of_shown {r : Property} (hr : r ∈ σ.shownProperties type) (hname : r.name = name) :
    σ.reopens type name = r.setter.isSome := by
  rw [reopens, find?_eq_some_of_nodup nodup_shownProperties hr hname]

section NotShown

variable (hshown : (σ.shownProperties type).find? (·.name == name) = none)

include hshown

theorem reopens_of_field {f : FieldDef} (hf : σ.field? type name = some f) : σ.reopens type name =
    if σ.isModel type then !(σ.isFrozenModel type || f.frozen) else !σ.isFrozenRecord type := by
  rw [reopens, hshown, hf]

theorem reopens_of_no_field (hf : σ.field? type name = none) :
    σ.reopens type name = (σ.slotNames type).contains name := by
  rw [reopens, hshown, hf]

end NotShown

theorem writable_of_model (hshown : (σ.shownProperties type).find? (·.name == name) = none)
    (hp : p ∈ σ.modelProperties type) (hname : p.name = name) :
    p.writable = σ.reopens type name := by
  unfold modelProperties at hp
  split at hp
  · next hmodel =>
    obtain ⟨f, hf, rfl⟩ := List.mem_map.1 hp
    have hfield : σ.field? type name = some f :=
      find?_eq_some_of_nodup (hasPublicNames_fields hmodel).nodup hf hname
    rw [reopens_of_field hshown hfield, if_pos hmodel]
  · cases hp

theorem writable_of_record (hshown : (σ.shownProperties type).find? (·.name == name) = none)
    (hmodel : σ.isModel type = true → σ.field? type name = none)
    (hp : p ∈ σ.recordProperties type) (hname : p.name = name) :
    p.writable = σ.reopens type name := by
  unfold recordProperties at hp
  split at hp
  · obtain ⟨f, hf, rfl⟩ := List.mem_map.1 hp
    cases hfield : σ.field? type name with
    | none => exact absurd (beq_of_eq hname) (List.find?_eq_none.1 hfield f hf)
    | some g =>
      have hplain : ¬ σ.isModel type = true := by
        intro hkind
        rw [hmodel hkind] at hfield
        cases hfield
      rw [reopens_of_field hshown hfield, if_neg hplain]
  · cases hp

/-! ### Names that a pass does not find -/

section Unlisted

variable (hpub : isPublic name = true)

include hpub

theorem field?_eq_none_of_model (hkind : σ.isModel type = true)
    (hmodel : ∀ q ∈ σ.modelProperties type, isPublic q.name = true → q.name ≠ name) :
    σ.field? type name = none := by
  rw [modelProperties, if_pos hkind] at hmodel
  exact find?_eq_none_of_pass FieldDef.name (fun _ => rfl) hpub hmodel

theorem field?_eq_none_of_record (hkind : σ.isModel type = false)
    (hrecord : ∀ q ∈ σ.recordProperties type, isPublic q.name = true → q.name ≠ name) :
    σ.field? type name = none := by
  cases hfield : σ.field? type name with
  | none => rfl
  | some f =>
    rw [recordProperties, if_pos (isRecord_of_field? hkind hfield)] at hrecord
    rw [← hfield]
    exact find?_eq_none_of_pass FieldDef.name (fun _ => rfl) hpub hrecord

theorem not_contains_slotNames
    (hslot : ∀ q ∈ σ.slotProperties type, isPublic q.name = true → q.name ≠ name) :
    (σ.slotNames type).contains name = false := by
  rw [Bool.eq_false_iff, Ne, List.contains_iff_mem]
  intro hmem
  obtain ⟨r, hr, hrn⟩ := exists_slotProperty hmem
  exact hslot r hr (by rwa [hrn]) hrn

end Unlisted

/-! ## Read-only names -/

section ReadOnly

variable (hdistinct : σ.HasDistinctProperties type)
  (hq : σ.descriptor? type name = some (.property q)) (hsetter : q.setter = none)
  (hpub : isPublic name = true)

include hdistinct hq hsetter hpub

theorem writable_of_computed (hp : p ∈ overrideProperties [] (σ.computedProperties type))
    (hname : p.name = name) : p.writable = false := by
  obtain ⟨hqn, front, back, hcomputed, hback⟩ := computedProperties_eq hdistinct hq
  rw [hcomputed] at hp
  have heq : p = σ.computedProperty q :=
    eq_of_mem_overrideProperties (by rwa [computedProperty, hqn]) (by rwa [computedProperty, hqn])
      (hname.trans hqn.symm) hp
  rw [heq, computedProperty, hsetter]
  rfl

/-- A class lists a read-only name as the later passes say. -/
theorem writable_eq_reopens (hp : p ∈ σ.declaredProperties type) (hname : p.name = name) :
    p.writable = σ.reopens type name := by
  rw [declaredProperties] at hp
  simp only [List.foldl_cons, List.foldl_nil] at hp
  -- The passes are undone from the last one, until one of them has the name.
  rcases mem_overrideProperties hp with ⟨hp, -⟩ | ⟨hp, hshown⟩
  · obtain ⟨r, hr, rfl⟩ := List.mem_map.1 hp
    exact (reopens_of_shown hr hname).symm
  rw [hname] at hshown
  replace hshown := find?_eq_none_of_pass Property.name (fun _ => rfl) hpub hshown
  rcases mem_overrideProperties hp with ⟨hp, -⟩ | ⟨hp, hmodel⟩
  · exact writable_of_model hshown hp hname
  rw [hname] at hmodel
  rcases mem_overrideProperties hp with ⟨hp, -⟩ | ⟨hp, hrecord⟩
  · exact writable_of_record hshown (field?_eq_none_of_model hpub · hmodel) hp hname
  rw [hname] at hrecord
  have hfield : σ.field? type name = none := by
    cases hkind : σ.isModel type with
    | true => exact field?_eq_none_of_model hpub hkind hmodel
    | false => exact field?_eq_none_of_record hpub hkind hrecord
  rw [reopens_of_no_field hshown hfield]
  rcases mem_overrideProperties hp with ⟨hp, -⟩ | ⟨hp, hslot⟩
  · obtain ⟨hslot, hwritable⟩ := mem_slotProperties hp
    rw [hname] at hslot
    rw [hwritable, List.contains_iff_mem.2 hslot]
  rw [hname] at hslot
  rw [not_contains_slotNames hpub hslot]
  exact writable_of_computed hdistinct hq hsetter hpub hp hname

omit hsetter in
theorem exists_mem_declaredProperties : ∃ p ∈ σ.declaredProperties type, p.name = name := by
  obtain ⟨hqn, front, back, hcomputed, -⟩ := computedProperties_eq hdistinct hq
  have hfound : name ∈ (σ.computedProperties type).map (·.name) := by
    rw [hcomputed, ← hqn]
    exact List.mem_map_of_mem (List.mem_append_right _ List.mem_cons_self)
  rw [← List.mem_map (f := PropertyInfo.name), declaredProperties]
  simp only [List.foldl_cons, List.foldl_nil]
  exact mem_names_overrideProperties (.inr (mem_names_overrideProperties (.inr
    (mem_names_overrideProperties (.inr (mem_names_overrideProperties (.inr
      (mem_names_overrideProperties (.inl ⟨hpub, hfound⟩)))))))))

end ReadOnly

end Schema

/-! ## Read-only names of instances -/

namespace Heap

variable {σ : Schema} {h : Heap} {c : Value} {a : Address} {type name : String}
  {attrs : List (String × Value)} {ps : List PropertyInfo} {p : PropertyInfo} {q : Property}

section Listed

variable (hobject : h.object? c = some (a, type, attrs)) (hps : h.propertiesOf σ c = .ok ps)
  (hdistinct : σ.HasDistinctProperties type)
  (hq : σ.descriptor? type name = some (.property q)) (hsetter : q.setter = none)
  (hpub : isPublic name = true)

include hobject hps hdistinct hq hsetter hpub

/-- An instance exposes a read-only name as the later passes say. -/
theorem writable_of_mem_propertiesOf (hp : p ∈ ps) (hname : p.name = name) :
    p.writable = σ.reopens type name := by
  rcases mem_propertiesOf hobject hps hp with hp | ⟨-, hnew⟩
  · exact Schema.writable_eq_reopens hdistinct hq hsetter hpub hp hname
  · obtain ⟨r, hr, hrn⟩ := Schema.exists_mem_declaredProperties hdistinct hq hpub
    exact absurd (hrn.trans hname.symm) (hnew r hr)

/-- A read-only name that a later pass reopens is among the writable properties of an instance. -/
theorem exists_writable_of_reopens (hreopens : σ.reopens type name = true) :
    ∃ p ∈ ps.filter (·.writable), p.name = name := by
  obtain ⟨p, hp, hname⟩ := Schema.exists_mem_declaredProperties hdistinct hq hpub
  refine ⟨p, List.mem_filter.2 ⟨mem_propertiesOf_of_declared hobject hps hp, ?_⟩, hname⟩
  rw [Schema.writable_eq_reopens hdistinct hq hsetter hpub hp hname, hreopens]

/-- A read-only name that no later pass reopens is not among them. -/
theorem ne_of_not_reopens (hreopens : σ.reopens type name = false) :
    ∀ p ∈ ps.filter (·.writable), p.name ≠ name := by
  intro p hp hname
  obtain ⟨hp, hwritable⟩ := List.mem_filter.1 hp
  rw [writable_of_mem_propertiesOf hobject hps hdistinct hq hsetter hpub hp hname, hreopens]
    at hwritable
  cases hwritable

end Listed

end Heap

end Dotpath

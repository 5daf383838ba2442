import Dotpath.Proofs.Fault
import Dotpath.Proofs.Schema.Lookup
import Dotpath.Proofs.Schema.Plain

/-!
# Declared properties

The passes that collect the properties of a class only take in public names, and a later pass
replaces what an earlier one found (`mem_overrideProperties`).  The fields of a model have different
public names (`nodup_fields`), so the pass over them leaves one property of each.
-/

namespace Dotpath

/-- What replaces others of its name leaves the names as they are. -/
theorem map_name_replace {α : Type} (name : α → String) (xs : List α) (y : α) :
    (xs.map fun x => if name x == name y then y else x).map name = xs.map name := by
  rw [List.map_map]
  refine List.map_congr_left fun x _ => ?_
  dsimp only [Function.comp]
  split
  · next heq => exact (eq_of_beq heq).symm
  · rfl

/-- Names stay different when an element takes the place of one of its name, or comes last. -/
theorem nodup_replace_or_add {α : Type} (name : α → String) {xs : List α} (y : α)
    (hxs : (xs.map name).Nodup) :
    ((if xs.any fun x => name x == name y then xs.map fun x => if name x == name y then y else x
      else xs ++ [y]).map name).Nodup := by
  split
  · rwa [map_name_replace]
  · next hnew =>
    rw [List.map_append, List.nodup_append]
    refine ⟨hxs, List.pairwise_singleton _ _, ?_⟩
    rintro n hn m hm rfl
    obtain ⟨x, hx, hxn⟩ := List.mem_map.1 hn
    refine hnew (List.any_eq_true.2 ⟨x, hx, beq_of_eq ?_⟩)
    rw [hxn]
    exact List.mem_singleton.1 hm

/-! ## Passes -/

theorem mem_overrideProperty {ps : List PropertyInfo} {p q : PropertyInfo}
    (hp : p ∈ overrideProperty ps q) : p = q ∨ p ∈ ps ∧ q.name ≠ p.name := by
  unfold overrideProperty at hp
  split at hp
  · obtain ⟨r, hr, hrp⟩ := List.mem_map.1 hp
    split at hrp
    · exact .inl hrp.symm
    · next hne =>
      subst hrp
      exact .inr ⟨hr, fun heq => hne (beq_of_eq heq.symm)⟩
  · next hnone =>
    rcases List.mem_append.1 hp with hp | hp
    · exact .inr ⟨hp, fun heq => hnone (List.any_eq_true.2 ⟨p, hp, beq_of_eq heq.symm⟩)⟩
    · exact .inl (List.mem_singleton.1 hp)

theorem mem_names_overrideProperty {ps : List PropertyInfo} {q : PropertyInfo} {name : String}
    (hname : name = q.name ∨ name ∈ ps.map (·.name)) :
    name ∈ (overrideProperty ps q).map (·.name) := by
  unfold overrideProperty
  split
  · next hany =>
    obtain ⟨r, hr, hrq⟩ := List.any_eq_true.1 hany
    rw [map_name_replace PropertyInfo.name]
    rcases hname with rfl | hname
    · exact List.mem_map.2 ⟨r, hr, eq_of_beq hrq⟩
    · exact hname
  · rw [List.map_append, List.mem_append]
    rcases hname with rfl | hname
    · exact .inr List.mem_cons_self
    · exact .inl hname

theorem mem_foldl_overrideProperty {ps qs : List PropertyInfo} {p : PropertyInfo}
    (hp : p ∈ qs.foldl overrideProperty ps) :
    p ∈ qs ∨ p ∈ ps ∧ ∀ q ∈ qs, q.name ≠ p.name := by
  induction qs generalizing ps with
  | nil => exact .inr ⟨hp, by simp⟩
  | cons q qs ih =>
    rcases ih hp with hp | ⟨hp, hne⟩
    · exact .inl (List.mem_cons_of_mem q hp)
    · rcases mem_overrideProperty hp with rfl | ⟨hp, hq⟩
      · exact .inl List.mem_cons_self
      · exact .inr ⟨hp, List.forall_mem_cons.2 ⟨hq, hne⟩⟩

theorem mem_names_foldl_overrideProperty {ps qs : List PropertyInfo} {name : String}
    (hname : name ∈ qs.map (·.name) ∨ name ∈ ps.map (·.name)) :
    name ∈ (qs.foldl overrideProperty ps).map (·.name) := by
  induction qs generalizing ps with
  | nil => exact hname.resolve_left (by simp)
  | cons q qs ih =>
    refine ih ?_
    rw [List.map_cons, List.mem_cons, or_assoc] at hname
    rcases hname with hname | hname | hname
    · exact .inr (mem_names_overrideProperty (.inl hname))
    · exact .inl hname
    · exact .inr (mem_names_overrideProperty (.inr hname))

/-- A property after a pass is one that the pass found, or an earlier one of another name. -/
theorem mem_overrideProperties {ps qs : List PropertyInfo} {p : PropertyInfo}
    (hp : p ∈ overrideProperties ps qs) :
    p ∈ qs ∧ isPublic p.name = true ∨
      p ∈ ps ∧ ∀ q ∈ qs, isPublic q.name = true → q.name ≠ p.name := by
  rcases mem_foldl_overrideProperty hp with hp | ⟨hp, hne⟩
  · exact .inl (List.mem_filter.1 hp)
  · exact .inr ⟨hp, fun q hq hpub => hne q (List.mem_filter.2 ⟨hq, hpub⟩)⟩

/-- A pass keeps the names that were found before, and adds the public ones that it finds. -/
theorem mem_names_overrideProperties {ps qs : List PropertyInfo} {name : String}
    (hname : isPublic name = true ∧ name ∈ qs.map (·.name) ∨ name ∈ ps.map (·.name)) :
    name ∈ (overrideProperties ps qs).map (·.name) := by
  refine mem_names_foldl_overrideProperty (hname.imp_left ?_)
  rintro ⟨hpub, hmem⟩
  obtain ⟨q, hq, rfl⟩ := List.mem_map.1 hmem
  exact List.mem_map.2 ⟨q, List.mem_filter.2 ⟨hq, hpub⟩, rfl⟩

/-- A property that passes leave is a public one of one of the passes. -/
theorem mem_foldl_overrideProperties {passes : List (List PropertyInfo)} {ps : List PropertyInfo}
    {p : PropertyInfo} (hp : p ∈ passes.foldl overrideProperties ps) :
    p ∈ ps ∨ isPublic p.name = true ∧ ∃ pass ∈ passes, p ∈ pass := by
  induction passes generalizing ps with
  | nil => exact .inl hp
  | cons pass passes ih =>
    rcases ih hp with hp | ⟨hpub, qs, hqs, hp⟩
    · rcases mem_overrideProperties hp with ⟨hp, hpub⟩ | ⟨hp, -⟩
      · exact .inr ⟨hpub, pass, List.mem_cons_self, hp⟩
      · exact .inl hp
    · exact .inr ⟨hpub, qs, List.mem_cons_of_mem pass hqs, hp⟩

/-! ## Names that are listed -/

theorem mem_listNames_of_mem {info : String → PropertyInfo} {ps : List PropertyInfo}
    {names : List String} {p : PropertyInfo} (hp : p ∈ ps) : p ∈ listNames info ps names := by
  induction names generalizing ps with
  | nil => exact hp
  | cons n names ih =>
    rw [listNames_cons]
    split
    · exact ih hp
    · exact ih (List.mem_append_left _ hp)

/-- What is listed was there before, or is what is known of a public name that was not. -/
theorem mem_listNames {info : String → PropertyInfo} {ps : List PropertyInfo} {names : List String}
    {p : PropertyInfo} (hp : p ∈ listNames info ps names) :
    p ∈ ps ∨ ∃ n, isPublic n = true ∧ p = info n ∧ ∀ q ∈ ps, q.name ≠ n := by
  induction names generalizing ps with
  | nil => exact .inl hp
  | cons n names ih =>
    rw [listNames_cons] at hp
    split at hp
    · exact ih hp
    · next hadd =>
      rw [Bool.or_eq_true, not_or, Bool.not_eq_true', Bool.not_eq_false, List.any_eq_true] at hadd
      obtain ⟨hpub, hnew⟩ := hadd
      rcases ih hp with hp | ⟨m, hm, rfl, hother⟩
      · rcases List.mem_append.1 hp with hp | hp
        · exact .inl hp
        · exact .inr ⟨n, hpub, List.mem_singleton.1 hp, fun q hq hqn => hnew ⟨q, hq, beq_of_eq hqn⟩⟩
      · exact .inr ⟨m, hm, rfl, fun q hq => hother q (List.mem_append_left _ hq)⟩

namespace Schema

variable {σ : Schema} {type name : String} {attrs : List (String × Value)}

/-- Every property that a class declares comes from one of the passes. -/
theorem mem_declaredProperties {p : PropertyInfo} (hp : p ∈ σ.declaredProperties type) :
    isPublic p.name = true ∧ ∃ pass ∈ [σ.computedProperties type, σ.slotProperties type,
      σ.recordProperties type, σ.modelProperties type, σ.shownPropertyInfos type], p ∈ pass :=
  (mem_foldl_overrideProperties hp).resolve_left (by simp)

theorem nodup_mergeFields {fs gs : List FieldDef} (hfs : (fs.map (·.name)).Nodup) :
    ((mergeFields fs gs).map (·.name)).Nodup := by
  unfold mergeFields
  induction gs generalizing fs with
  | nil => exact hfs
  | cons g gs ih => exact ih (nodup_replace_or_add FieldDef.name g hfs)

theorem nodup_foldl_mergeFields (gss : List (List FieldDef)) {fs : List FieldDef}
    (hfs : (fs.map (·.name)).Nodup) : ((gss.foldl mergeFields fs).map (·.name)).Nodup := by
  induction gss generalizing fs with
  | nil => exact hfs
  | cons gs gss ih => exact ih (nodup_mergeFields hfs)

/-- The fields of a record have different names. -/
theorem nodup_fields (hmodel : σ.isModel type = false) : ((σ.fields type).map (·.name)).Nodup := by
  have hlookup {known : List (String × List FieldDef)}
      (hknown : ∀ e ∈ known, (e.2.map (·.name)).Nodup) (n : String) :
      (((known.lookup n).getD []).map (·.name)).Nodup := by
    cases hl : known.lookup n with
    | none => exact .nil
    | some fs => exact hknown _ (mem_of_lookup hl)
  have htable (cs : List ClassDef) (known : List (String × List FieldDef))
      (hknown : ∀ e ∈ known, (e.2.map (·.name)).Nodup) :
      ∀ e ∈ σ.recordFieldsFrom known cs, (e.2.map (·.name)).Nodup := by
    induction cs generalizing known with
    | nil => exact hknown
    | cons c cs ih =>
      rw [recordFieldsFrom]
      refine ih _ fun e he => ?_
      rcases List.mem_append.1 he with he | he
      · exact hknown e he
      obtain rfl := List.mem_singleton.1 he
      dsimp only
      split
      · split
        · exact nodup_mergeFields (nodup_foldl_mergeFields _ .nil)
        · exact hlookup hknown _
      · exact .nil
  rw [fields, if_neg (by rw [hmodel]; exact Bool.false_ne_true)]
  exact hlookup (htable _ [] (by simp)) type

/-! ## Fields of models -/

/-- Whether fields have different public names. -/
structure HasPublicNames (fs : List FieldDef) : Prop where
  nodup : (fs.map (·.name)).Nodup
  isPublic : ∀ f ∈ fs, isPublic f.name = true

theorem HasPublicNames.mergeFields {fs gs : List FieldDef} (hfs : HasPublicNames fs)
    (hgs : ∀ g ∈ gs, Dotpath.isPublic g.name = true) : HasPublicNames (mergeFields fs gs) := by
  unfold Schema.mergeFields
  induction gs generalizing fs with
  | nil => exact hfs
  | cons g gs ih =>
    obtain ⟨hg, hgs⟩ := List.forall_mem_cons.1 hgs
    rw [List.foldl_cons]
    refine ih ⟨nodup_replace_or_add FieldDef.name g hfs.nodup, fun f hf => ?_⟩ hgs
    split at hf
    · obtain ⟨e, he, rfl⟩ := List.mem_map.1 hf
      split
      · exact hg
      · exact hfs.isPublic e he
    · rcases List.mem_append.1 hf with hf | hf
      · exact hfs.isPublic f hf
      · obtain rfl := List.mem_singleton.1 hf
        exact hg

theorem hasPublicNames_declaredFields : HasPublicNames (σ.declaredFields type) := by
  unfold declaredFields
  have hfold (cs : List ClassDef) (fs : List FieldDef) (hfs : HasPublicNames fs) :
      HasPublicNames (cs.foldl (fun fs c =>
        Schema.mergeFields fs (c.fields.filter (Dotpath.isPublic ·.name))) fs) := by
    induction cs generalizing fs with
    | nil => exact hfs
    | cons c cs ih => exact ih _ (hfs.mergeFields fun g hg => (List.mem_filter.1 hg).2)
  exact hfold _ [] ⟨List.nodup_nil, by simp⟩

theorem HasPublicNames.map {fs : List FieldDef} {take : FieldDef → FieldDef}
    (hfs : HasPublicNames fs) (htake : ∀ f, (take f).name = f.name) : HasPublicNames (fs.map take) := by
  refine ⟨?_, fun f hf => ?_⟩
  · have hnames : (fs.map take).map (·.name) = fs.map (·.name) := by
      rw [List.map_map]
      exact List.map_congr_left fun f _ => htake f
    rw [hnames]
    exact hfs.nodup
  · obtain ⟨e, he, rfl⟩ := List.mem_map.1 hf
    rw [htake]
    exact hfs.isPublic e he

/-- A field that is taken over from a base has the name under which it was looked up. -/
theorem name_taken (c : ClassDef) (known : List (String × List FieldDef)) (f : FieldDef) :
    (if c.fields.any (·.name == f.name) then f
      else (c.bases.findSome? fun b =>
        ((known.lookup b).getD []).find? (·.name == f.name)).getD f).name = f.name := by
  split
  · rfl
  · cases htaken : c.bases.findSome? fun b =>
        ((known.lookup b).getD []).find? (·.name == f.name) with
    | none => rfl
    | some g =>
      obtain ⟨b, -, hg⟩ := List.exists_of_findSome?_eq_some htaken
      have hname := List.find?_some hg
      exact eq_of_beq hname

/-- The fields of a model have different public names. -/
theorem hasPublicNames_fields (hmodel : σ.isModel type = true) : HasPublicNames (σ.fields type) := by
  have htable (cs : List ClassDef) (known : List (String × List FieldDef))
      (hknown : ∀ e ∈ known, HasPublicNames e.2) :
      ∀ e ∈ σ.modelFieldsFrom known cs, HasPublicNames e.2 := by
    induction cs generalizing known with
    | nil => exact hknown
    | cons c cs ih =>
      rw [modelFieldsFrom]
      refine ih _ fun e he => ?_
      rcases List.mem_append.1 he with he | he
      · exact hknown e he
      obtain rfl := List.mem_singleton.1 he
      dsimp only
      split
      · have hdeclared : HasPublicNames (σ.declaredFields c.name) := hasPublicNames_declaredFields
        exact hdeclared.map fun f => name_taken c known f
      · exact ⟨List.nodup_nil, by simp⟩
  rw [fields, if_pos hmodel]
  cases hl : (σ.modelFieldsFrom [] σ.classes).lookup type with
  | none => exact ⟨List.nodup_nil, by simp⟩
  | some fs => exact htable _ [] (by simp) _ (mem_of_lookup hl)

theorem isPublic_of_field? (hmodel : σ.isModel type = true) {f : FieldDef}
    (hf : σ.field? type name = some f) : Dotpath.isPublic name = true := by
  have hname := List.find?_some hf
  rw [← eq_of_beq hname]
  exact (hasPublicNames_fields hmodel).isPublic f (List.mem_of_find?_eq_some hf)

end Schema

/-! ## Properties of values -/

namespace Heap

variable {σ : Schema} {h : Heap} {c : Value} {a : Address} {type : String}
  {attrs : List (String × Value)} {ps : List PropertyInfo} {p : PropertyInfo}

theorem mem_propertiesOf_of_declared (hobject : h.object? c = some (a, type, attrs))
    (hps : h.propertiesOf σ c = .ok ps) (hp : p ∈ σ.declaredProperties type) : p ∈ ps := by
  rw [propertiesOf, hobject] at hps
  obtain ⟨held, -, hps⟩ := bind_eq_ok.1 hps
  obtain ⟨extra, -, hps⟩ := bind_eq_ok.1 hps
  cases hps
  exact mem_listNames_of_mem (mem_listNames_of_mem hp)

/-- A property of an instance is declared by its class, or has a public name that its class does not
declare. -/
theorem mem_propertiesOf (hobject : h.object? c = some (a, type, attrs))
    (hps : h.propertiesOf σ c = .ok ps) (hp : p ∈ ps) :
    p ∈ σ.declaredProperties type ∨
      isPublic p.name = true ∧ ∀ q ∈ σ.declaredProperties type, q.name ≠ p.name := by
  rw [propertiesOf, hobject] at hps
  obtain ⟨held, -, hps⟩ := bind_eq_ok.1 hps
  obtain ⟨extra, -, hps⟩ := bind_eq_ok.1 hps
  cases hps
  rcases mem_listNames hp with hp | ⟨n, hn, rfl, hnew⟩
  · rcases mem_listNames hp with hp | ⟨n, hn, rfl, hnew⟩
    · exact .inl hp
    · exact .inr ⟨hn, hnew⟩
  · exact .inr ⟨hn, fun q hq => hnew q (mem_listNames_of_mem hq)⟩

/-- Whatever an instance answers for its dictionary, names that start with an underscore are never
properties. -/
theorem isPublic_of_mem_propertiesOf (hps : h.propertiesOf σ c = .ok ps) (hp : p ∈ ps) :
    isPublic p.name = true := by
  cases hobject : h.object? c with
  | none =>
    rw [propertiesOf, hobject] at hps
    cases hps
    cases hp
  | some o =>
    rcases mem_propertiesOf hobject hps hp with hp | ⟨hpub, -⟩
    · exact (Schema.mem_declaredProperties hp).1
    · exact hpub

end Heap

end Dotpath

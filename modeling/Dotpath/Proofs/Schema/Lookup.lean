import Dotpath.Graph.Reach

/-!
# What look-ups find

A look-up in a class and its ancestors finds a property or a value that one of the classes of the
schema holds.  A class that is defined is the first of its own lineage.
-/

namespace Dotpath

theorem mem_of_lookup {α β : Type} [BEq α] [LawfulBEq α] {es : List (α × β)} {k : α} {b : β}
    (hb : es.lookup k = some b) : (k, b) ∈ es := by
  obtain ⟨front, back, rfl, -⟩ := List.lookup_eq_some_iff.1 hb
  exact List.mem_append_right front List.mem_cons_self

namespace Schema

variable {σ : Schema} {type name : String}

theorem mem_classes_of_mem_lineage {c : ClassDef} (hc : c ∈ σ.lineage type) : c ∈ σ.classes := by
  obtain ⟨n, -, hn⟩ := List.mem_filterMap.1 hc
  exact List.mem_of_find?_eq_some hn

/-- A property that a look-up finds is one of the class or an ancestor. -/
theorem mem_of_descriptor?_property {p : Property}
    (hp : σ.descriptor? type name = some (.property p)) :
    ∃ c ∈ σ.lineage type, p ∈ c.properties := by
  obtain ⟨c, hc, hp⟩ := List.exists_of_findSome?_eq_some hp
  refine ⟨c, hc, ?_⟩
  unfold ClassDef.descriptor? at hp
  split at hp
  · next q hq =>
    cases hp
    exact List.mem_of_find?_eq_some hq
  · split at hp
    · cases hp
    · obtain ⟨v, -, hv⟩ := Option.map_eq_some_iff.1 hp
      cases hv

/-- A value that a look-up finds is one of the class or an ancestor. -/
theorem mem_of_descriptor?_value {v : Value} (hv : σ.descriptor? type name = some (.value v)) :
    ∃ c ∈ σ.lineage type, (name, v) ∈ c.classAttrs := by
  obtain ⟨c, hc, hv⟩ := List.exists_of_findSome?_eq_some hv
  refine ⟨c, hc, ?_⟩
  unfold ClassDef.descriptor? at hv
  split at hv
  · cases hv
  · split at hv
    · cases hv
    · obtain ⟨w, hw, hv⟩ := Option.map_eq_some_iff.1 hv
      cases hv
      exact mem_of_lookup hw

theorem mem_sharedValues_of_property {p : Property} {v : Value}
    (hp : σ.descriptor? type name = some (.property p)) (hv : p.getter = .constant v) :
    v ∈ σ.sharedValues type := by
  obtain ⟨c, hc, hp⟩ := mem_of_descriptor?_property hp
  refine List.mem_flatMap.2 ⟨c, hc, List.mem_append_right _ ?_⟩
  exact List.mem_filterMap.2 ⟨p, hp, Getter.constant?_eq_some.2 hv⟩

theorem mem_sharedValues_of_value {v : Value} (hv : σ.descriptor? type name = some (.value v)) :
    v ∈ σ.sharedValues type := by
  obtain ⟨c, hc, hv⟩ := mem_of_descriptor?_value hv
  exact List.mem_flatMap.2 ⟨c, hc, List.mem_append_left _ (List.mem_map_of_mem hv)⟩

/-! ## Lineages -/

theorem lookup_lineagesFrom_of_known {known : List (String × List String)} {names : List String}
    (hknown : known.lookup type = some names) (cs : List ClassDef) :
    (lineagesFrom known cs).lookup type = some names := by
  induction cs generalizing known with
  | nil => exact hknown
  | cons c cs ih =>
    refine ih ?_
    rw [List.lookup_append, hknown]
    rfl

/-- The lineage of a class that is defined starts with the class. -/
theorem exists_lookup_lineagesFrom {known : List (String × List String)} {cs : List ClassDef}
    (hnew : known.lookup type = none) {c : ClassDef} (hc : c ∈ cs) (hname : c.name = type) :
    ∃ rest, (lineagesFrom known cs).lookup type = some (type :: rest) := by
  induction cs generalizing known with
  | nil => cases hc
  | cons d cs ih =>
    rw [lineagesFrom]
    generalize mergeLineages _ _ = merged
    by_cases hd : d.name = type
    · subst hd
      refine ⟨merged, lookup_lineagesFrom_of_known ?_ cs⟩
      rw [List.lookup_append, hnew, Option.none_or, List.lookup_cons, beq_self_eq_true]
    · have hc' : c ∈ cs := by
        rcases List.mem_cons.1 hc with rfl | hc
        · exact absurd hname hd
        · exact hc
      refine ih ?_ hc'
      rw [List.lookup_append, hnew, Option.none_or, List.lookup_cons,
        beq_false_of_ne (Ne.symm hd)]
      rfl

theorem name_of_find? {c : ClassDef} (hc : σ.find? type = some c) : c.name = type := by
  have hname := List.find?_some hc
  exact eq_of_beq hname

theorem mem_lineage_of_find? {c : ClassDef} (hc : σ.find? type = some c) : c ∈ σ.lineage type := by
  obtain ⟨rest, hrest⟩ : ∃ rest, (lineagesFrom [] σ.classes).lookup type = some (type :: rest) :=
    exists_lookup_lineagesFrom rfl (List.mem_of_find?_eq_some hc) (name_of_find? hc)
  rw [lineage, lineageNames, hrest]
  exact List.mem_filterMap.2 ⟨type, List.mem_cons_self, hc⟩

end Schema

end Dotpath

import Dotpath.Graph.Items
import Dotpath.Proofs.Fault
import Dotpath.Proofs.Graph.Assignment

/-!
# Objects in a changing heap

An assignment to an item or a key leaves every object of the heap as it is (`KeepsObjects`).  No
assignment changes the classes of which a node is an instance, so an instance of a class stays one
(`KeepsClasses`).
-/

namespace Dotpath

namespace Heap

/-- Whether every node of a heap is still an instance of the same classes in a later one. -/
def KeepsClasses (σ : Schema) (h h' : Heap) : Prop :=
  ∀ ⦃a : Address⦄ ⦃n : Node⦄, h.get? a = some n →
    ∃ n', h'.get? a = some n' ∧ n'.classes σ = n.classes σ

/-- Whether a later heap has the same objects as an earlier one, and keeps the classes of all nodes. -/
structure KeepsObjects (σ : Schema) (h h' : Heap) : Prop where
  objects : ∀ ⦃a : Address⦄ ⦃type : String⦄ ⦃attrs : List (String × Value)⦄,
    h'.get? a = some (.object type attrs) ↔ h.get? a = some (.object type attrs)
  classes : h.KeepsClasses σ h'

variable {σ : Schema} {h h' : Heap} {a : Address}

/-! ## Classes -/

theorem Extends.keepsClasses (hext : h.Extends h') : h.KeepsClasses σ h' :=
  fun _ n hn => ⟨n, hext hn, rfl⟩

/-- An instance of a class stays one. -/
theorem KeepsClasses.isInstance (hk : h.KeepsClasses σ h') {v : Value} {type : String}
    (hv : h.isInstance σ v type = true) : h'.isInstance σ v type = true := by
  rw [Heap.isInstance, Bool.or_eq_true] at hv ⊢
  refine hv.imp_right fun hv => ?_
  cases v with
  | ref a =>
    rw [Heap.classes] at hv ⊢
    cases hn : h.get? a with
    | none =>
      rw [hn] at hv
      cases hv
    | some n =>
      obtain ⟨n', hn', hc⟩ := hk hn
      rw [hn] at hv
      rw [hn', Option.map_some, Option.getD_some, hc]
      exact hv
  | _ => exact hv

theorem keepsClasses_set {n n' : Node} (hn : h.get? a = some n)
    (hclasses : n'.classes σ = n.classes σ) : h.KeepsClasses σ (h.set a n') := by
  intro b m hm
  by_cases hab : a = b
  · subst hab
    obtain rfl : n = m := Option.some.inj (hn.symm.trans hm)
    exact ⟨n', get?_set_self n' hn, hclasses⟩
  · exact ⟨m, (get?_set_ne n' hab).trans hm, rfl⟩

theorem keepsClasses_putStored (h : Heap) (a : Address) (name : String) (v : Value) :
    h.KeepsClasses σ (h.putStored a name v) := by
  unfold putStored
  split
  · next type attrs hn => exact keepsClasses_set hn rfl
  · exact (Grows.refl h).keeps.keepsClasses

/-! ## Items and keys -/

theorem KeepsObjects.refl (σ : Schema) (h : Heap) : h.KeepsObjects σ h :=
  ⟨fun _ _ _ => Iff.rfl, (Grows.refl h).keeps.keepsClasses⟩

theorem keepsObjects_set {n n' : Node} (hn : h.get? a = some n) (hobject : n.isObject = false)
    (hobject' : n'.isObject = false) (hclasses : n'.classes σ = n.classes σ) :
    h.KeepsObjects σ (h.set a n') := by
  refine ⟨fun b type attrs => ?_, keepsClasses_set hn hclasses⟩
  by_cases hab : a = b
  · subst hab
    rw [get?_set_self n' hn, hn]
    refine iff_of_false ?_ ?_
    · rintro ⟨⟩
      cases hobject'
    · rintro ⟨⟩
      cases hobject
  · rw [get?_set_ne n' hab]

theorem keepsObjects_of_bounded {n n' : Node} {i size : Nat} {f : Fault} (hn : h.get? a = some n)
    (hset : (if i < size then .ok (h.set a n') else .error f : Except Fault Heap) = .ok h')
    (hobject : n.isObject = false) (hobject' : n'.isObject = false)
    (hclasses : n'.classes σ = n.classes σ) : h.KeepsObjects σ h' := by
  split at hset
  · rw [← Except.ok.inj hset]
    exact keepsObjects_set hn hobject hobject' hclasses
  · cases hset

theorem keepsObjects_of_storeMember {offset i : Nat} {shape : List Nat} {v : Value}
    (hset : h.storeMember a offset shape i v = .ok h') : h.KeepsObjects σ h' := by
  unfold storeMember at hset
  split at hset
  · next hn =>
    split at hset
    · cases hset
    · obtain ⟨new, -, hset⟩ := bind_eq_ok.1 hset
      rw [← Except.ok.inj hset]
      exact keepsObjects_set hn rfl rfl rfl
  · cases hset

/-- Assigning an item leaves the objects as they are. -/
theorem keepsObjects_of_setItem {c v : Value} {i : Nat} (hset : h.setItem c i v = .ok h') :
    h.KeepsObjects σ h' := by
  unfold setItem at hset
  split at hset
  · exact keepsObjects_of_storeMember hset
  · next a =>
    split at hset
    · next hn => exact keepsObjects_of_bounded hn hset rfl rfl rfl
    · next hn => exact keepsObjects_of_bounded hn hset rfl rfl rfl
    · next hn =>
      split at hset
      · cases hset
      · exact keepsObjects_of_bounded hn hset rfl rfl rfl
    · next hn =>
      obtain ⟨b, -, hset⟩ := bind_eq_ok.1 hset
      exact keepsObjects_of_bounded hn hset rfl rfl rfl
    · next hn =>
      obtain ⟨x, -, hset⟩ := bind_eq_ok.1 hset
      exact keepsObjects_of_bounded hn hset rfl rfl rfl
    · exact keepsObjects_of_storeMember hset
    · cases hset
  · cases hset
  · cases hset

theorem keepsObjects_putEntry (h : Heap) (d : Address) (k v : Value) :
    h.KeepsObjects σ (h.putEntry d k v) := by
  unfold putEntry
  split
  · next hn => exact keepsObjects_set hn rfl rfl rfl
  · exact .refl σ h

/-- So does assigning a key. -/
theorem keepsObjects_of_setKey {c k v : Value} (hset : h.setKey c k v = .ok h') :
    h.KeepsObjects σ h' := by
  obtain ⟨d, type, es, -, -, rfl⟩ := eq_putEntry_of_setKey hset
  exact keepsObjects_putEntry h d k v

end Heap

end Dotpath

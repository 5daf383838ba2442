import Dotpath.Graph.Access
import Dotpath.Graph.Text
import Dotpath.Proofs.Fault
import Dotpath.Proofs.Scalar.Text
import Dotpath.Proofs.Schema.Lookup
import Dotpath.Proofs.Schema.Plain

/-!
# Faults of properties

Reading a property goes wrong where the properties cannot be listed, where there is none of the name,
or where its attribute cannot be read (`Heap.readProperty_eq_error`).  The message of the failure
shows the fault, with its arguments.  Most faults have one text for an argument; only what a getter
raises may come with arguments that have no text (`isShown_of_ne_raised`).
-/

namespace Dotpath

/-- Whether a fault can be shown. -/
def Fault.IsShown (f : Fault) : Prop := f.quoted?.isSome = true

theorem isShown_of_ne_raised {f : Fault} (hf : ∀ kind args, f ≠ .raised kind args) :
    f.IsShown := by
  cases f with
  | raised kind args => exact absurd rfl (hf kind args)
  | keyRejected reason => cases reason <;> rfl
  | _ => rfl

namespace Heap

variable {σ : Schema} {h : Heap} {a : Address}

/-- A property cannot be read where the properties cannot be listed, where there are none, where there
is none of the name, or where its attribute cannot be read. -/
theorem readProperty_eq_error {c : Value} {name : Segment} {f : Fault}
    (hf : h.readProperty σ c name = .error f) :
    h.propertiesOf σ c = .error f ∨ ∃ ps, h.propertiesOf σ c = .ok ps ∧
      (ps = [] ∧ f = .noProperties (h.typeName c) false ∨
        ps ≠ [] ∧ (∀ q ∈ ps, some q.name ≠ name) ∧
          f = .noProperty (h.typeName c) (segmentText name) false ∨
        ∃ a type attrs, h.object? c = some (a, type, attrs) ∧
          ∃ q ∈ ps, some q.name = name ∧ h.attributeOf σ a q.name = .error f) := by
  rcases bind_eq_error.1 hf with hf | ⟨ps, hps, hf⟩
  · exact .inl hf
  refine .inr ⟨ps, hps, ?_⟩
  split at hf
  · next hnone =>
    cases hf
    exact .inl ⟨List.isEmpty_iff.1 hnone, rfl⟩
  · next hsome =>
    have hne : ps ≠ [] := fun hnil => hsome (List.isEmpty_iff.2 hnil)
    split at hf
    · next a type attrs q hobject hq =>
      have hname : some q.name = name := by simpa using List.find?_some hq
      exact .inr (.inr ⟨a, type, attrs, hobject, q, List.mem_of_find?_eq_some hq, hname, hf⟩)
    · next hother =>
      cases hf
      refine .inr (.inl ⟨hne, fun q hq hname => ?_, rfl⟩)
      -- What has properties is an object, so only the name can be missing.
      cases hobject : h.object? c with
      | none =>
        rw [propertiesOf, hobject] at hps
        exact hne (Except.ok.inj hps).symm
      | some o =>
        cases hfind : ps.find? fun q => some q.name == name with
        | none => simpa [hname] using List.find?_eq_none.1 hfind q hq
        | some q => exact hother _ _ _ q hobject hfind

/-- A name whose getter raises a fault cannot be read. -/
theorem attributeOf_of_raises {type : String} {attrs : List (String × Value)} {name : String}
    {p : Property} {kind : FaultKind} {args : List Argument}
    (hget : h.get? a = some (.object type attrs))
    (hp : σ.descriptor? type name = some (.property p)) (hraises : p.getter = .raises kind args) :
    h.attributeOf σ a name = .error (.raised kind args) := by
  obtain ⟨k, hk⟩ := Nat.exists_eq_succ_of_ne_zero (Nat.ne_of_gt (fuel_pos σ h (.ref a)))
  rw [attributeOf, hk, attributeWith, hget]
  dsimp only
  rw [hp]
  dsimp only
  rw [hraises, compute]

/-- A property whose getter raises a fault cannot be read. -/
theorem readProperty_of_raises {type : String} {attrs : List (String × Value)} {name : String}
    {p : Property} {kind : FaultKind} {args : List Argument}
    (hget : h.get? a = some (.object type attrs)) (hdict : σ.computes type dictionaryName = false)
    (hextras : σ.computes type extrasName = false) (hname : σ.hasProperty type attrs name = true)
    (hp : σ.descriptor? type name = some (.property p)) (hraises : p.getter = .raises kind args) :
    h.readProperty σ (.ref a) (some name) = .error (.raised kind args) := by
  rw [readProperty_of_get? hget hdict hextras, Schema.isEmpty_of_hasProperty hname,
    if_neg Bool.false_ne_true, if_pos hname, attributeOf_of_raises hget hp hraises]

end Heap

end Dotpath

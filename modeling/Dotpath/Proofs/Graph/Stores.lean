import Dotpath.Graph.Access

/-!
# What an assignment stores

An assignment to an attribute changes nothing, or gets past the checks of frozen classes and fields
(`Schema.Admits`).  Then the setter of a computed property stores, and any other attribute takes the
value that was assigned, or what a field of a model makes of it (`Heap.Stores`).
-/

namespace Dotpath

/-- Whether no frozen class and no frozen field keeps a name of an instance from being assigned. -/
structure Schema.Admits (σ : Schema) (type name : String) : Prop where
  not_refused : σ.refusesName type name = false
  not_fixed : σ.isModel type = true → isPublic name = true → σ.fixesName type name = false

namespace Heap

/-- Whether a heap is another one with a value stored in an attribute of an object: the given value,
or what a field of a model makes of it. -/
inductive Stores (σ : Schema) (h : Heap) (a : Address) (type name : String) (v : Value) :
    Heap → Prop
  | given : Stores σ h a type name v (h.putStored a name v)
  | coerced {f : FieldDef} {w : Value} {h₁ : Heap} (hmodel : σ.isModel type = true)
    (hf : σ.field? type name = some f)
    (hc : coerce? σ ((f.declared.resolve? σ.knows).getD f.declared) h v = some (w, h₁)) :
    Stores σ h a type name v (h₁.putStored a name w)

variable {σ : Schema} {h h' : Heap} {a : Address} {type name : String} {v : Value}

theorem storePlain_eq_ok (hset : storePlain σ h a type name v = .ok h') :
    h' = h.putStored a name v := by
  unfold storePlain at hset
  split at hset
  · exact (Except.ok.inj hset).symm
  all_goals
    split at hset
    · exact (Except.ok.inj hset).symm
    · cases hset

theorem storeInModel_eq_ok (hmodel : σ.isModel type = true)
    (hset : storeInModel σ h a type name v = .ok h') : h.Stores σ a type name v h' := by
  unfold storeInModel at hset
  split at hset
  · unfold storeChecked at hset
    split at hset
    · next f hf =>
      split at hset
      · next w h₁ hc =>
        split at hset
        · cases hset
          exact .coerced hmodel hf hc
        · cases hset
      · cases hset
    · split at hset
      · cases hset
        exact .given
      · cases hset
  · split at hset
    · cases hset
      exact .given
    · cases hset

/-- What an assignment to a computed property does: its setter stores, and then may raise an error. -/
def setWith (σ : Schema) (fuel : Nat) (h : Heap) (a : Address) (s : Setter) (v : Value) :
    Except Stopped Heap :=
  assignAll (fun h n => assignWith σ fuel h a n v) h s.stores >>= fun h' =>
    match s.raises with
    | some (kind, args) => .error (.raised kind args, h')
    | none => .ok h'

/-- An assignment changes nothing, or gets past the checks.  Then a computed property is set, and any
other attribute is stored. -/
theorem assignWith_cases (fuel : Nat) {attrs : List (String × Value)}
    (hget : h.get? a = some (.object type attrs)) (name : String) (v : Value) :
    (∃ f, assignWith σ (fuel + 1) h a name v = .error (f, h)) ∨
      σ.Admits type name ∧
        ((∃ p s, σ.descriptor? type name = some (.property p) ∧ p.setter = some s ∧
            assignWith σ (fuel + 1) h a name v = h.setWith σ fuel a s v) ∨
          (∀ p, σ.descriptor? type name ≠ some (.property p)) ∧
            ∃ h', assignWith σ (fuel + 1) h a name v = .ok h' ∧ h.Stores σ a type name v h') := by
  rw [assignWith, hget]
  dsimp only
  split
  · exact .inl ⟨_, rfl⟩
  · next hrefused =>
    split
    · exact .inl ⟨_, rfl⟩
    · next hfixed =>
      have hadmits : σ.Admits type name := by
        refine ⟨Bool.eq_false_iff.2 hrefused, fun hmodel hpub => ?_⟩
        rw [hmodel, hpub, Bool.true_and, Bool.true_and] at hfixed
        exact Bool.eq_false_iff.2 hfixed
      split
      · next p hp =>
        split
        · exact .inl ⟨_, rfl⟩
        · next s hs => exact .inr ⟨hadmits, .inl ⟨p, s, hp, hs, rfl⟩⟩
      · next hstored =>
        have hor : (∃ f, (if σ.isModel type && isPublic name then storeInModel σ h a type name v
              else storePlain σ h a type name v) = .error f) ∨
            ∃ h', (if σ.isModel type && isPublic name then storeInModel σ h a type name v
              else storePlain σ h a type name v) = .ok h' ∧ h.Stores σ a type name v h' := by
          split
          · next hchecked =>
            cases hr : storeInModel σ h a type name v with
            | ok h' => exact .inr ⟨h', rfl, storeInModel_eq_ok (Bool.and_eq_true_iff.1 hchecked).1 hr⟩
            | error f => exact .inl ⟨f, rfl⟩
          · cases hr : storePlain σ h a type name v with
            | ok h' => exact .inr ⟨h', rfl, storePlain_eq_ok hr ▸ .given⟩
            | error f => exact .inl ⟨f, rfl⟩
        rcases hor with ⟨f, hf⟩ | ⟨h', hok, hstores⟩
        · exact .inl ⟨f, by rw [hf]; rfl⟩
        · exact .inr ⟨hadmits, .inr ⟨hstored, h', by rw [hok]; rfl, hstores⟩⟩

/-- An assignment to a name that is not computed stores the value under it, or changes nothing. -/
theorem assignWith_of_stored (fuel : Nat) {attrs : List (String × Value)}
    (hget : h.get? a = some (.object type attrs))
    (hstored : ∀ p, σ.descriptor? type name ≠ some (.property p)) (v : Value) :
    (∃ h', assignWith σ fuel h a name v = .ok h' ∧ σ.Admits type name ∧
      h.Stores σ a type name v h') ∨ ∃ f, assignWith σ fuel h a name v = .error (f, h) := by
  cases fuel with
  | zero => exact .inr ⟨endlessText, rfl⟩
  | succ fuel =>
    rcases assignWith_cases fuel hget name v with
      hf | ⟨hadmits, ⟨p, s, hp, -⟩ | ⟨-, h', hok, hstores⟩⟩
    · exact .inr hf
    · exact absurd hp (hstored p)
    · exact .inl ⟨h', hok, hadmits, hstores⟩

/-- An assignment that succeeds gets past the checks of frozen classes and fields. -/
theorem admits_of_assignWith {fuel : Nat} {attrs : List (String × Value)}
    (hget : h.get? a = some (.object type attrs)) (hset : assignWith σ fuel h a name v = .ok h') :
    σ.Admits type name := by
  cases fuel with
  | zero => cases hset
  | succ fuel =>
    rcases assignWith_cases fuel hget name v with ⟨f, hf⟩ | ⟨hadmits, -⟩
    · cases hf.symm.trans hset
    · exact hadmits

theorem object?_of_get? {attrs : List (String × Value)}
    (hget : h.get? a = some (.object type attrs)) :
    h.object? (.ref a) = some (a, type, attrs) := by
  rw [object?, hget]

theorem get?_of_object? {c : Value} {attrs : List (String × Value)}
    (hc : h.object? c = some (a, type, attrs)) :
    c = .ref a ∧ h.get? a = some (.object type attrs) := by
  unfold object? at hc
  split at hc
  · split at hc
    · next hn =>
      cases hc
      exact ⟨rfl, hn⟩
    · cases hc
  · cases hc

/-- An instance that answers for no special name itself has the properties of its class and those that
it stores. -/
theorem propertiesOf_of_get? {attrs : List (String × Value)}
    (hget : h.get? a = some (.object type attrs))
    (hdict : σ.computes type dictionaryName = false)
    (hextras : σ.computes type extrasName = false) :
    h.propertiesOf σ (.ref a) = .ok (σ.properties type attrs) := by
  rw [propertiesOf, object?_of_get? hget]
  dsimp only [namesUnder]
  rw [hdict, hextras]
  rfl

/-- Writing a property changes nothing, or assigns the attribute of its name a value of its declared
type. -/
theorem writeProperty_cases (σ : Schema) (h : Heap) (c : Value) (segment : Segment) (v : Value) :
    (∃ f, h.writeProperty σ c segment v = .error (f, h)) ∨
      ∃ a type attrs ps p, c = .ref a ∧ h.get? a = some (.object type attrs) ∧
        h.propertiesOf σ c = .ok ps ∧ p ∈ ps ∧ p.writable = true ∧ segment = some p.name ∧
        h.isAssignable σ p.declared v = true ∧
        h.writeProperty σ c segment v = (h.assign σ a p.name v).mapError fun (f, h') =>
          (if f.kind.isA .validation then h.illegal c p v else f, h') := by
  rw [writeProperty]
  cases hps : h.propertiesOf σ c with
  | error f => exact .inl ⟨f, rfl⟩
  | ok ps =>
    dsimp only [Except.mapError, bind, Except.bind]
    split
    · exact .inl ⟨_, rfl⟩
    · split
      · next a type attrs p hobject hp =>
        have hname : some p.name = segment := by simpa using List.find?_some hp
        split
        · next hassignable =>
          obtain ⟨hmem, hwritable⟩ := List.mem_filter.1 (List.mem_of_find?_eq_some hp)
          obtain ⟨rfl, hget⟩ := get?_of_object? hobject
          refine .inr ⟨a, type, attrs, ps, p, rfl, hget, rfl, hmem, hwritable, hname.symm, hassignable, ?_⟩
          cases h.assign σ a p.name v <;> rfl
        · exact .inl ⟨_, rfl⟩
      · exact .inl ⟨_, rfl⟩

theorem exists_assign_of_writeProperty {c : Value} {segment : Segment}
    (hwrite : h.writeProperty σ c segment v = .ok h') :
    ∃ a type attrs ps p, c = .ref a ∧ h.get? a = some (.object type attrs) ∧
      h.propertiesOf σ c = .ok ps ∧ p ∈ ps ∧ p.writable = true ∧ segment = some p.name ∧
      h.isAssignable σ p.declared v = true ∧ h.assign σ a p.name v = .ok h' := by
  rcases writeProperty_cases σ h c segment v with
    ⟨f, hf⟩ | ⟨a, type, attrs, ps, p, hc, hget, hps, hp, hwritable, hname, hassignable, hassign⟩
  · rw [hf] at hwrite
    cases hwrite
  · rw [hassign] at hwrite
    cases hr : h.assign σ a p.name v with
    | ok h'' =>
      rw [hr] at hwrite
      exact ⟨a, type, attrs, ps, p, hc, hget, hps, hp, hwritable, hname, hassignable, hwrite ▸ hr⟩
    | error s =>
      rw [hr] at hwrite
      cases hwrite

end Heap

end Dotpath

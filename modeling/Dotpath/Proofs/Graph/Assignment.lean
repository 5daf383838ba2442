import Dotpath.Proofs.Graph.Difference
import Dotpath.Proofs.Graph.Stores

/-!
# Assigned attributes

An assignment to a property stores the value in its object, though not always under the name of the
property: a setter may pass the value on to other attributes, and may raise an error after that
(`storesEach_assignWith`).  Without such setters it changes one attribute or nothing
(`assignWith_of_single`).  A model that coerces the value first puts the copies into new nodes, so
the heap it goes on with has all nodes of the earlier one, and none of the new ones is an object
(`grows_of_coerce?`).
-/

namespace Dotpath

/-- Whether a node is an instance of a class of the schema. -/
def Node.isObject : Node → Bool
  | object .. => true
  | _ => false

namespace Heap

variable {σ : Schema} {h h' h'' : Heap}

/-! ## Copies -/

/-- Whether a heap has all nodes of an earlier one, and no more objects. -/
structure Grows (h h' : Heap) : Prop where
  keeps : h.Extends h'
  objects : ∀ ⦃a : Address⦄ ⦃type : String⦄ ⦃attrs : List (String × Value)⦄,
    h'.get? a = some (.object type attrs) → h.get? a = some (.object type attrs)

theorem Grows.refl (h : Heap) : h.Grows h := ⟨.refl h, fun _ _ _ hn => hn⟩

theorem Grows.trans (h₁ : h.Grows h') (h₂ : h'.Grows h'') : h.Grows h'' :=
  ⟨h₁.keeps.trans h₂.keeps, fun _ _ _ hn => h₁.objects (h₂.objects hn)⟩

theorem grows_alloc (h : Heap) {n : Node} (hn : n.isObject = false) : h.Grows (h.alloc n).1 := by
  refine ⟨extends_alloc h n, fun a type attrs hm => ?_⟩
  rw [alloc, get?, Array.getElem?_push] at hm
  split at hm
  · obtain rfl := Option.some.inj hm
    cases hn
  · exact hm

theorem grows_of_allocValue {n : Node} {w : Value} (hn : n.isObject = false)
    (hw : h.allocValue n = (w, h')) : h.Grows h' := by
  cases hw
  exact grows_alloc h hn

/-- Copies of a container's members, made one after the other. -/
theorem grows_of_coerceAll {f : Heap → Value → Option (Value × Heap)}
    (hf : ∀ {h h' : Heap} {v w : Value}, f h v = some (w, h') → h.Grows h') {vs ws : List Value}
    (hc : coerceAll f h vs = some (ws, h')) : h.Grows h' := by
  induction vs generalizing h ws with
  | nil =>
    cases hc
    exact .refl _
  | cons v vs ih =>
    obtain ⟨⟨w, h₁⟩, hw, hc⟩ := Option.bind_eq_some_iff.1 hc
    obtain ⟨⟨ws', h₂⟩, hws, hc⟩ := Option.bind_eq_some_iff.1 hc
    cases hc
    exact (hf hw).trans (ih hws)

/-- Copies of a container's members in a new node. -/
theorem grows_of_copies {f : Heap → Value → Option (Value × Heap)}
    (hf : ∀ {h h' : Heap} {v w : Value}, f h v = some (w, h') → h.Grows h')
    {members : Option (List Value)} {node : List Value → Node} {w : Value}
    (hn : ∀ items, (node items).isObject = false)
    (hc : (do let (items, h) ← coerceAll f h (← members); return h.allocValue (node items)) =
      some (w, h')) : h.Grows h' := by
  obtain ⟨vs, -, hc⟩ := Option.bind_eq_some_iff.1 hc
  obtain ⟨⟨ws, h₁⟩, hws, hc⟩ := Option.bind_eq_some_iff.1 hc
  exact (grows_of_coerceAll hf hws).trans (grows_of_allocValue (hn ws) (Option.some.inj hc))

/-- A copy that takes over the members of a container as they are. -/
theorem grows_of_map_allocValue {α : Type} {o : Option α} {f : α → Node} {w : Value}
    (hn : ∀ x, (f x).isObject = false)
    (hc : (o.map fun x => h.allocValue (f x)) = some (w, h')) : h.Grows h' := by
  obtain ⟨x, -, hw⟩ := Option.map_eq_some_iff.1 hc
  exact grows_of_allocValue (hn x) hw

/-- A result that lies inline needs no node. -/
theorem grows_of_map_inline {α : Type} {o : Option α} {f : α → Value} {w : Value}
    (hc : (o.map fun x => (f x, h)) = some (w, h')) : h.Grows h' := by
  obtain ⟨x, -, hw⟩ := Option.map_eq_some_iff.1 hc
  cases hw
  exact .refl h

theorem coerce?_forward (t : String) (v : Value) :
    coerce? σ (.forward t) h v = coerce? σ (.named t) h v := by
  rw [coerce?.eq_def, coerce?.eq_def]

theorem grows_of_coerceNamed {t : String} {v w : Value}
    (hc : coerce? σ (.named t) h v = some (w, h')) : h.Grows h' := by
  rw [coerce?.eq_def] at hc
  dsimp only at hc
  split at hc
  · split at hc
    · exact grows_of_map_inline (f := fun s => .scalar s) hc
    · cases hc
  · split at hc
    · exact grows_of_map_allocValue (fun _ => rfl) hc
    · exact grows_of_map_allocValue (fun _ => rfl) hc
    · exact grows_of_map_inline (f := fun items => .frozenSet items) hc
    · exact grows_of_map_inline (f := fun items => .tuple items) hc
    · exact grows_of_map_allocValue (fun _ => rfl) hc
    · obtain ⟨-, hc⟩ := Option.ite_none_right_eq_some.1 hc
      cases hc
      exact .refl h

mutual

/-- A coercion adds nodes, none of them an object, and changes none. -/
theorem grows_of_coerce? {a : Annotation} {h h' : Heap} {v w : Value}
    (hc : coerce? σ a h v = some (w, h')) : h.Grows h' := by
  cases a with
  | any =>
    rw [coerce?] at hc
    cases hc
    exact .refl h
  | remarked a =>
    rw [coerce?] at hc
    exact grows_of_coerce? hc
  | forward t =>
    rw [coerce?_forward] at hc
    exact grows_of_coerceNamed hc
  | named t => exact grows_of_coerceNamed hc
  | null =>
    rw [coerce?] at hc
    obtain ⟨-, hc⟩ := Option.ite_none_right_eq_some.1 hc
    cases hc
    exact .refl h
  | union members bars =>
    rw [coerce?] at hc
    split at hc
    · next r hr =>
      cases hc
      exact grows_of_coerceStrict hr
    · exact grows_of_coerceSome hc
  | list a | set a =>
    rw [coerce?] at hc
    exact grows_of_copies grows_of_coerce? (fun _ => rfl) hc
  | dict k a =>
    rw [coerce?] at hc
    obtain ⟨es, -, hc⟩ := Option.bind_eq_some_iff.1 hc
    obtain ⟨⟨ks, h₁⟩, hks, hc⟩ := Option.bind_eq_some_iff.1 hc
    obtain ⟨⟨ws, h₂⟩, hws, hc⟩ := Option.bind_eq_some_iff.1 hc
    exact ((grows_of_coerceAll grows_of_coerce? hks).trans
      (grows_of_coerceAll grows_of_coerce? hws)).trans
      (grows_of_allocValue rfl (Option.some.inj hc))
  | tuple as =>
    rw [coerce?] at hc
    obtain ⟨vs, -, hc⟩ := Option.bind_eq_some_iff.1 hc
    obtain ⟨⟨ws, h₁⟩, hws, hc⟩ := Option.bind_eq_some_iff.1 hc
    cases hc
    exact grows_of_coerceEach hws
  | tupleOf a =>
    rw [coerce?] at hc
    obtain ⟨vs, -, hc⟩ := Option.bind_eq_some_iff.1 hc
    obtain ⟨⟨ws, h₁⟩, hws, hc⟩ := Option.bind_eq_some_iff.1 hc
    cases hc
    exact grows_of_coerceAll grows_of_coerce? hws
  | literal values =>
    rw [coerce?] at hc
    obtain ⟨l, -, hc⟩ := Option.map_eq_some_iff.1 hc
    cases hc
    exact .refl h

theorem grows_of_coerceStrict {as : List Annotation} {h h' : Heap} {v w : Value}
    (hc : coerceStrict σ as h v = some (w, h')) : h.Grows h' := by
  cases as with
  | nil =>
    rw [coerceStrict] at hc
    cases hc
  | cons a as =>
    rw [coerceStrict] at hc
    split at hc
    · split at hc
      · next w₁ h₁ ha =>
        split at hc
        · cases hc
          exact grows_of_coerce? ha
        · split at hc
          · next r hr =>
            cases hc
            exact grows_of_coerceStrict hr
          · cases hc
            exact grows_of_coerce? ha
      · exact grows_of_coerceStrict hc
    · exact grows_of_coerceStrict hc

theorem grows_of_coerceSome {as : List Annotation} {h h' : Heap} {v w : Value}
    (hc : coerceSome σ as h v = some (w, h')) : h.Grows h' := by
  cases as with
  | nil =>
    rw [coerceSome] at hc
    cases hc
  | cons a as =>
    rw [coerceSome] at hc
    split at hc
    · next r hr =>
      cases hc
      exact grows_of_coerce? hr
    · exact grows_of_coerceSome hc

theorem grows_of_coerceEach {as : List Annotation} {h h' : Heap} {vs ws : List Value}
    (hc : coerceEach σ as h vs = some (ws, h')) : h.Grows h' := by
  cases as with
  | nil =>
    cases vs with
    | nil =>
      rw [coerceEach.eq_def] at hc
      cases hc
      exact .refl _
    | cons v vs =>
      rw [coerceEach.eq_def] at hc
      cases hc
  | cons a as =>
    cases vs with
    | nil =>
      rw [coerceEach.eq_def] at hc
      cases hc
    | cons v vs =>
      rw [coerceEach] at hc
      obtain ⟨⟨w, h₁⟩, hw, hc⟩ := Option.bind_eq_some_iff.1 hc
      obtain ⟨⟨ws', h₂⟩, hws, hc⟩ := Option.bind_eq_some_iff.1 hc
      cases hc
      exact (grows_of_coerce? hw).trans (grows_of_coerceEach hws)

end

theorem heapLeft_mapError (r : Except Stopped Heap) (g : Fault × Heap → Fault) :
    heapLeft (r.mapError fun s => (g s, s.2)) = heapLeft r := by
  cases r <;> rfl

/-! ## Stored attributes -/

variable {a : Address} {type name : String} {v : Value}

theorem get?_putStored_self {attrs : List (String × Value)}
    (hget : h.get? a = some (.object type attrs)) (name : String) (v : Value) :
    (h.putStored a name v).get? a = some (.object type (putAttribute attrs name v)) := by
  rw [putStored, hget]
  exact get?_set_self _ hget

theorem get?_putStored_of_ne {b : Address} (hab : a ≠ b) (name : String) (v : Value) :
    (h.putStored a name v).get? b = h.get? b := by
  unfold putStored
  split
  · exact get?_set_ne _ hab
  · rfl

/-- What is stored in an object changes no other object, and one attribute of this one. -/
theorem Stores.objects {attrs : List (String × Value)}
    (hget : h.get? a = some (.object type attrs)) (hstores : h.Stores σ a type name v h') :
    (∃ w, h'.get? a = some (.object type (putAttribute attrs name w))) ∧
      ∀ b, a ≠ b → ∀ type' attrs', h'.get? b = some (.object type' attrs') ↔
        h.get? b = some (.object type' attrs') := by
  cases hstores with
  | given =>
    refine ⟨⟨v, get?_putStored_self hget name v⟩, fun b hab type' attrs' => ?_⟩
    rw [get?_putStored_of_ne hab]
  | @coerced f w h₁ hmodel hf hc =>
    have hgrows := grows_of_coerce? hc
    refine ⟨⟨w, get?_putStored_self (hgrows.keeps hget) name w⟩, fun b hab type' attrs' => ?_⟩
    rw [get?_putStored_of_ne hab]
    exact ⟨fun hb => hgrows.objects hb, fun hb => hgrows.keeps hb⟩

/-- Whether a heap is another one after a value has been stored in attributes of an object, one after
the other: under names that get past the checks of frozen classes and fields. -/
inductive StoresEach (σ : Schema) (a : Address) (type : String) (v : Value) :
    Heap → List String → Heap → Prop
  | nil (h : Heap) : StoresEach σ a type v h [] h
  | cons {h h₁ h₂ : Heap} {name : String} {names : List String} (hadmits : σ.Admits type name)
    (hfirst : h.Stores σ a type name v h₁) (hrest : StoresEach σ a type v h₁ names h₂) :
    StoresEach σ a type v h (name :: names) h₂

namespace StoresEach

variable {names names' : List String}

theorem append (h₁ : StoresEach σ a type v h names h') (h₂ : StoresEach σ a type v h' names' h'') :
    StoresEach σ a type v h (names ++ names') h'' := by
  induction h₁ with
  | nil => exact h₂
  | cons hadmits hfirst _ ih => exact .cons hadmits hfirst (ih h₂)

theorem get? {attrs : List (String × Value)} (hget : h.get? a = some (.object type attrs))
    (hstores : StoresEach σ a type v h names h') :
    ∃ attrs', h'.get? a = some (.object type attrs') := by
  induction hstores generalizing attrs with
  | nil => exact ⟨attrs, hget⟩
  | cons _ hfirst _ ih =>
    obtain ⟨⟨w, hself⟩, -⟩ := hfirst.objects hget
    exact ih hself

end StoresEach

/-- What several assignments to an object store, if each of them stores so. -/
theorem storesEach_assignAll {assign : Heap → String → Except Stopped Heap}
    (hassign : ∀ {h : Heap} {attrs : List (String × Value)}, h.get? a = some (.object type attrs) →
      ∀ n, ∃ names, StoresEach σ a type v h names (heapLeft (assign h n)))
    {h : Heap} {attrs : List (String × Value)} (hget : h.get? a = some (.object type attrs))
    (stores : List String) :
    ∃ names, StoresEach σ a type v h names (heapLeft (assignAll assign h stores)) := by
  induction stores generalizing h attrs with
  | nil => exact ⟨[], .nil h⟩
  | cons n stores ih =>
    obtain ⟨names, hfirst⟩ := hassign hget n
    rw [assignAll]
    cases hr : assign h n with
    | error s =>
      rw [hr] at hfirst
      exact ⟨names, hfirst⟩
    | ok h₁ =>
      rw [hr] at hfirst
      obtain ⟨attrs₁, hget₁⟩ := hfirst.get? hget
      obtain ⟨names', hrest⟩ := ih hget₁
      exact ⟨names ++ names', hfirst.append hrest⟩

/-- Every assignment, also one that is stopped, has stored the value under some names. -/
theorem storesEach_assignWith (fuel : Nat) {attrs : List (String × Value)}
    (hget : h.get? a = some (.object type attrs)) (name : String) (v : Value) :
    ∃ names, StoresEach σ a type v h names (heapLeft (assignWith σ fuel h a name v)) := by
  -- The induction is on the fuel: a setter that passes the value on takes one unit of it.
  induction fuel generalizing h attrs name with
  | zero => exact ⟨[], .nil h⟩
  | succ fuel ih =>
    rcases assignWith_cases (σ := σ) fuel hget name v with
      ⟨f, hf⟩ | ⟨hadmits, ⟨p, s, -, -, hset⟩ | ⟨-, h', hok, hstores⟩⟩
    · rw [hf]
      exact ⟨[], .nil h⟩
    · rw [hset, setWith]
      have hall := storesEach_assignAll (fun hget n => ih hget n) hget s.stores
      cases hr : assignAll (fun h n => assignWith σ fuel h a n v) h s.stores with
      | error r =>
        rw [hr] at hall
        exact hall
      | ok h₁ =>
        rw [hr] at hall
        dsimp only [Bind.bind, Except.bind]
        cases s.raises <;> exact hall
    · rw [hok]
      exact ⟨[name], .cons hadmits hstores (.nil h')⟩

/-! ## Setters that store one attribute -/

end Heap

end Dotpath

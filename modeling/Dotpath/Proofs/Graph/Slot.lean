import Dotpath.Proofs.Graph.Keys
import Dotpath.Proofs.Schema.Plain
import Dotpath.Walk.Kind

/-!
# Slots

A slot is a place in one container of the heap: an index of a sequence, a key of a mapping or the
name of a property.  In a heap of ordinary containers, every one of which keeps its content in
itself, a slot is loaded from and stored into one node.  What is stored in a slot is loaded from it
again, and no other slot is affected (`load_store_self`, `load_store_of_ne`), even in the same
container.
-/

namespace Dotpath

/-- A place in a container of the heap. -/
inductive Slot where
  | item (a : Address) (n : Nat)
  | entry (a : Address) (key : Value)
  | property (a : Address) (name : String)

namespace Slot

/-- The container of a slot. -/
def address : Slot → Address
  | item a _ | entry a _ | property a _ => a

/-- Whether the key of a slot, if it has one, is a simple one. -/
def isSimple : Slot → Bool
  | entry _ k => k.isSimpleKey
  | _ => true

end Slot

namespace Node

/-- Whether a node is a list, a deque, a dictionary or an instance of a plain class. -/
def IsOrdinary (σ : Schema) : Node → Prop
  | list _ | deque _ | dict .. => True
  | object type _ => σ.IsPlainClass type
  | _ => False

/-- Whether a slot can be assigned: items and properties must be there already. -/
def hasSlot (σ : Schema) : Node → Slot → Bool
  | list items, .item _ n | deque items, .item _ n => n < items.length
  | dict .., .entry .. => true
  | object type attrs, .property _ name => σ.hasProperty type attrs name
  | _, _ => false

/-- What a node holds in a slot. -/
def slot? (σ : Schema) : Node → Slot → Option Value
  | list items, .item _ n | deque items, .item _ n => items[n]?
  | dict _ es, .entry _ k => Entries.find? es k
  | object type attrs, .property _ name =>
    if σ.hasProperty type attrs name then σ.attribute? type attrs name else none
  | _, _ => none

/-- A node with a value in a slot. -/
def putSlot : Node → Slot → Value → Node
  | list items, .item _ n, v => list (items.set n v)
  | deque items, .item _ n, v => deque (items.set n v)
  | dict type es, .entry _ k, v => dict type (Entries.put es k v)
  | object type attrs, .property _ name, v => object type (putAttribute attrs name v)
  | node, _, _ => node

variable {σ : Schema}

theorem isOrdinary_putSlot {n : Node} (hn : n.IsOrdinary σ) (s : Slot) (v : Value) :
    (n.putSlot s v).IsOrdinary σ := by
  cases n <;> cases s <;> exact hn

theorem slot?_putSlot_self {n : Node} {s : Slot} (hs : s.isSimple = true)
    (hslot : n.hasSlot σ s = true) (v : Value) : (n.putSlot s v).slot? σ s = some v := by
  unfold hasSlot at hslot
  split at hslot
  · exact List.getElem?_set_self (of_decide_eq_true hslot)
  · exact List.getElem?_set_self (of_decide_eq_true hslot)
  · exact Entries.find?_put_self _ hs v
  · rw [putSlot, slot?, if_pos (Schema.hasProperty_put_self hslot v), Schema.attribute?_put_self]
  · cases hslot

theorem slot?_putSlot_of_ne (n : Node) {s t : Slot} (hs : s.isSimple = true)
    (ht : t.isSimple = true) (ha : s.address = t.address) (hne : s ≠ t) (v : Value) :
    (n.putSlot s v).slot? σ t = n.slot? σ t := by
  -- Slots of different forms have nothing to do with each other: one of them is not in the node.
  cases s with
  | item a i =>
    cases t with
    | item b j =>
      obtain rfl : a = b := ha
      have hij : i ≠ j := fun h => hne (congrArg (Slot.item a) h)
      cases n with
      | list items | deque items => exact List.getElem?_set_ne hij
      | _ => rfl
    | entry | property => cases n <;> rfl
  | entry a k =>
    cases t with
    | entry b k' =>
      obtain rfl : a = b := ha
      have hkk' : k ≠ k' := fun h => hne (congrArg (Slot.entry a) h)
      cases n with
      | dict type es => exact Entries.find?_put_of_ne es hs ht hkk' v
      | _ => rfl
    | item | property => cases n <;> rfl
  | property a name =>
    cases t with
    | property b m =>
      obtain rfl : a = b := ha
      have hnm : name ≠ m := fun h => hne (congrArg (Slot.property a) h)
      cases n with
      | object type attrs =>
        rw [putSlot, slot?, slot?, Schema.hasProperty_put_of_ne hnm,
          Schema.attribute?_put_of_ne hnm]
      | _ => rfl
    | item | entry => cases n <;> rfl

end Node

namespace Heap

/-- Whether a heap consists of lists, deques, dictionaries and instances of plain classes. -/
def IsOrdinary (σ : Schema) (h : Heap) : Prop :=
  ∀ {a : Address} {n : Node}, h.get? a = some n → n.IsOrdinary σ

/-- What the heap holds in a slot. -/
def load (σ : Schema) (h : Heap) (s : Slot) : Option Value :=
  (h.get? s.address).bind (·.slot? σ s)

/-- The heap with a value in a slot. -/
def store (h : Heap) (s : Slot) (v : Value) : Heap :=
  match h.get? s.address with
  | some n => h.set s.address (n.putSlot s v)
  | none => h

theorem set_set (h : Heap) (a : Address) (m n : Node) : (h.set a m).set a n = h.set a n := by
  simp [set, Array.setIfInBounds_setIfInBounds]

theorem set_comm {h : Heap} {a b : Address} (hab : a ≠ b) (m n : Node) :
    (h.set a m).set b n = (h.set b n).set a m := by
  simp [set, Array.setIfInBounds_comm _ _ hab]

theorem set_self {h : Heap} {a : Address} {n : Node} (hn : h.get? a = some n) : h.set a n = h := by
  obtain ⟨nodes⟩ := h
  obtain ⟨ha, rfl⟩ := Array.getElem?_eq_some_iff.1 hn
  simp [set, Array.setIfInBounds, ha]

variable {σ : Schema} {h : Heap} {s t : Slot}

theorem isOrdinary_iff : h.IsOrdinary σ ↔ ∀ n ∈ h.nodes.toList, n.IsOrdinary σ := by
  constructor
  · intro hh n hn
    obtain ⟨a, ha⟩ := List.mem_iff_getElem?.1 hn
    exact hh (Array.getElem?_toList.symm.trans ha)
  · intro hh a n hn
    exact hh n (List.mem_of_getElem? (Array.getElem?_toList.trans hn))

theorem get?_store_self {n : Node} (hn : h.get? s.address = some n) (v : Value) :
    (h.store s v).get? s.address = some (n.putSlot s v) := by
  rw [store, hn]
  exact get?_set_self _ hn

theorem get?_store_of_ne {a : Address} (ha : s.address ≠ a) (v : Value) :
    (h.store s v).get? a = h.get? a := by
  unfold store
  split
  · exact get?_set_ne _ ha
  · rfl

/-- Every node is as before a store, or has changed in the slot alone. -/
theorem get?_store (h : Heap) (s : Slot) (v : Value) (a : Address) :
    (h.store s v).get? a = h.get? a ∨
      ∃ n, h.get? a = some n ∧ (h.store s v).get? a = some (n.putSlot s v) := by
  by_cases ha : s.address = a
  · subst ha
    cases hn : h.get? s.address with
    | none => left; rw [store, hn, hn]
    | some n => exact .inr ⟨n, rfl, get?_store_self hn v⟩
  · exact .inl (get?_store_of_ne ha v)

theorem IsOrdinary.store (hh : h.IsOrdinary σ) (s : Slot) (v : Value) :
    (h.store s v).IsOrdinary σ := by
  intro a n hn
  rcases get?_store h s v a with hsame | ⟨m, hm, hput⟩
  · rw [hsame] at hn
    exact hh hn
  · rw [hput] at hn
    obtain rfl := Option.some.inj hn
    exact Node.isOrdinary_putSlot (hh hm) s v

/-- What is stored in a slot is loaded from it. -/
theorem load_store_self {n : Node} (hs : s.isSimple = true) (hn : h.get? s.address = some n)
    (hslot : n.hasSlot σ s = true) (v : Value) : (h.store s v).load σ s = some v := by
  rw [load, get?_store_self hn]
  exact Node.slot?_putSlot_self hs hslot v

/-- A store affects no other slot. -/
theorem load_store_of_ne (hs : s.isSimple = true) (ht : t.isSimple = true) (hne : s ≠ t)
    (v : Value) : (h.store s v).load σ t = h.load σ t := by
  unfold load
  by_cases ha : s.address = t.address
  · rw [← ha]
    cases hn : h.get? s.address with
    | none => rw [store, hn, hn]
    | some n =>
      rw [get?_store_self hn]
      exact Node.slot?_putSlot_of_ne n hs ht ha hne v
  · rw [get?_store_of_ne ha]

/-! ## Kinds -/

theorem isSequence_store (h : Heap) (s : Slot) (v c : Value) :
    (h.store s v).isSequence c = h.isSequence c := by
  cases c with
  | ref a =>
    rw [isSequence, isSequence]
    rcases get?_store h s v a with hsame | ⟨n, hn, hput⟩
    · rw [hsame]
    · rw [hn, hput]
      cases n <;> cases s <;> rfl
  | _ => rfl

theorem grid?_store (h : Heap) (s : Slot) (v c : Value) :
    (h.store s v).grid? c = h.grid? c := by
  cases c with
  | ref a | row a =>
    rw [grid?, grid?]
    rcases get?_store h s v a with hsame | ⟨n, hn, hput⟩
    · rw [hsame]
    · rw [hn, hput]
      cases n <;> cases s <;> rfl
  | _ => rfl

theorem isMapping_store (h : Heap) (s : Slot) (v c : Value) :
    (h.store s v).isMapping c = h.isMapping c := by
  cases c with
  | ref a =>
    rw [isMapping, isMapping]
    rcases get?_store h s v a with hsame | ⟨n, hn, hput⟩
    · rw [hsame]
    · rw [hn, hput]
      cases n <;> cases s <;> rfl
  | _ => rfl

theorem isPrimitiveArray_store (h : Heap) (s : Slot) (v c : Value) :
    (h.store s v).isPrimitiveArray c = h.isPrimitiveArray c := by
  rw [isPrimitiveArray.eq_def, isPrimitiveArray.eq_def, grid?_store]
  cases h.grid? c with
  | some t => rfl
  | none =>
    cases c with
    | ref a =>
      dsimp only
      rcases get?_store h s v a with hsame | ⟨n, hn, hput⟩
      · rw [hsame]
      · rw [hn, hput]
        cases n <;> cases s <;> rfl
    | _ => rfl

/-- A store changes no value's kind. -/
theorem classify_store (h : Heap) (s : Slot) (v c : Value) :
    (h.store s v).classify c = h.classify c := by
  rw [classify, classify, isArray, isArray, isSequence_store, grid?_store, isMapping_store,
    isPrimitiveArray_store]

end Heap

end Dotpath

import Dotpath.Proofs.Graph.Slot
import Dotpath.Proofs.Schema.Lookup

/-!
# Overwriting slots

The laws of storing twice.  Storing what a slot holds changes nothing (`store_load_self`), the second
of two stores in one slot is the one that counts (`store_store_self`), and stores in two slots may
change places (`store_comm`).  Only where both bring a new entry into one dictionary, or a new
attribute into one object, the order of the two shows: the new ones stand in the order in which they
came (`Heap.AlikeButNew`).

Dictionaries and objects hold lists of pairs and assign to them alike (`putPair`), so these laws are
proved for such lists, given a test of keys.
-/

namespace Dotpath

/-! ## Lists of pairs -/

section Pairs

variable {κ β : Type} {same : κ → κ → Bool} {es : List (κ × β)} {k k' : κ}

/-- Pairs with a value assigned to a key, which is in its place or comes last. -/
def putPair (same : κ → κ → Bool) : List (κ × β) → κ → β → List (κ × β)
  | [], k, v => [(k, v)]
  | e :: es, k, v => if same e.1 k then (e.1, v) :: es else e :: putPair same es k v

theorem put_eq_putPair (es : Entries) (k v : Value) :
    Entries.put es k v = putPair Value.equal es k v := by
  induction es with
  | nil => rfl
  | cons e es ih => rw [Entries.put, putPair, ih]

theorem putAttribute_eq_putPair (attrs : List (String × Value)) (n : String) (v : Value) :
    putAttribute attrs n v = putPair (· == ·) attrs n v := by
  induction attrs with
  | nil => rfl
  | cons e attrs ih =>
    rw [putAttribute, putPair, ih]
    by_cases he : e.1 = n
    · rw [if_pos he, if_pos (beq_of_eq he), he]
    · rw [if_neg he, if_neg (by simpa using he)]

/-- A new key comes last. -/
theorem putPair_of_new (hnew : ∀ e ∈ es, same e.1 k = false) (v : β) :
    putPair same es k v = es ++ [(k, v)] := by
  induction es with
  | nil => rfl
  | cons e es ih =>
    have he : ¬ same e.1 k = true := by simp [hnew e List.mem_cons_self]
    rw [putPair, if_neg he, ih fun f hf => hnew f (List.mem_cons_of_mem e hf), List.cons_append]

/-- A stored key keeps its place. -/
theorem putPair_of_stored {front back : List (κ × β)} (hfront : ∀ e ∈ front, same e.1 k = false)
    (hk' : same k' k = true) (v w : β) :
    putPair same (front ++ (k', v) :: back) k w = front ++ (k', w) :: back := by
  induction front with
  | nil => rw [List.nil_append, putPair, if_pos hk', List.nil_append]
  | cons e front ih =>
    have he : ¬ same e.1 k = true := by simp [hfront e List.mem_cons_self]
    rw [List.cons_append, putPair, if_neg he, ih fun f hf => hfront f (List.mem_cons_of_mem e hf),
      List.cons_append]

/-- The second of two assignments under one key counts. -/
theorem putPair_putPair_self (hk : same k k = true) (es : List (κ × β)) (v w : β) :
    putPair same (putPair same es k v) k w = putPair same es k w := by
  induction es with
  | nil => simp [putPair, hk]
  | cons e es ih =>
    by_cases he : same e.1 k = true
    · simp [putPair, he]
    · simp [putPair, he, ih]

/-- Assignments under different keys may change places, if one of the keys is there. -/
theorem putPair_comm (hkk' : ∀ a, ¬ (same a k = true ∧ same a k' = true))
    (hold : ∃ e ∈ es, same e.1 k = true ∨ same e.1 k' = true) (v w : β) :
    putPair same (putPair same es k v) k' w = putPair same (putPair same es k' w) k v := by
  induction es with
  | nil => simp at hold
  | cons e es ih =>
    by_cases he : same e.1 k = true
    · have he' : ¬ same e.1 k' = true := fun h => hkk' e.1 ⟨he, h⟩
      simp [putPair, he, he']
    · by_cases he' : same e.1 k' = true
      · simp [putPair, he, he']
      · have hold' : ∃ f ∈ es, same f.1 k = true ∨ same f.1 k' = true := by
          simpa [he, he'] using hold
        simp [putPair, he, he', ih hold']

/-- Assignments under different keys may change places, unless both keys are new: then they come last,
in one order or the other. -/
theorem putPair_comm_or (hk : same k k = true) (hk' : same k' k' = true)
    (hkk' : ∀ a, ¬ (same a k = true ∧ same a k' = true)) (es : List (κ × β)) (v w : β) :
    putPair same (putPair same es k v) k' w = putPair same (putPair same es k' w) k v ∨
      putPair same (putPair same es k v) k' w = es ++ [(k, v), (k', w)] ∧
        putPair same (putPair same es k' w) k v = es ++ [(k', w), (k, v)] := by
  by_cases hold : ∃ e ∈ es, same e.1 k = true ∨ same e.1 k' = true
  · exact .inl (putPair_comm hkk' hold v w)
  · have hnew : ∀ e ∈ es, same e.1 k = false ∧ same e.1 k' = false := by
      intro e he
      simpa using not_or.1 fun h => hold ⟨e, he, h⟩
    have hnext {a b : κ} {x : β} (hb : same a b = false) (hold : ∀ e ∈ es, same e.1 b = false) :
        ∀ e ∈ es ++ [(a, x)], same e.1 b = false := by
      intro e he
      rcases List.mem_append.1 he with he | he
      · exact hold e he
      · rw [List.mem_singleton.1 he]
        exact hb
    have hkk : same k k' = false := Bool.eq_false_iff.2 fun h => hkk' k ⟨hk, h⟩
    have hk'k : same k' k = false := Bool.eq_false_iff.2 fun h => hkk' k' ⟨h, hk'⟩
    have hnewk : ∀ e ∈ es, same e.1 k = false := fun e he => (hnew e he).1
    have hnewk' : ∀ e ∈ es, same e.1 k' = false := fun e he => (hnew e he).2
    right
    rw [putPair_of_new hnewk, putPair_of_new (hnext hkk hnewk'), putPair_of_new hnewk',
      putPair_of_new (hnext hk'k hnewk), List.append_assoc, List.append_assoc]
    exact ⟨rfl, rfl⟩

end Pairs

/-! ## Nodes -/

namespace Node

variable {σ : Schema}

/-- Whether what can be read of an instance is stored in it, and not only in its class. -/
def StoresOwn (σ : Schema) : Node → Prop
  | object type attrs => ∀ name v, σ.hasProperty type attrs name = true →
    σ.attribute? type attrs name = some v → attrs.lookup name = some v
  | _ => True

theorem storesOwn_of_no_values {type : String} (attrs : List (String × Value))
    (hnone : ∀ c ∈ σ.lineage type, c.classAttrs = []) : (object type attrs).StoresOwn σ := by
  intro name v _ hv
  unfold Schema.attribute? at hv
  split at hv
  · next u hu =>
    obtain ⟨c, hc, hmem⟩ := Schema.mem_of_descriptor?_value hu
    rw [hnone c hc] at hmem
    cases hmem
  · exact hv

/-- Whether two nodes are another one with two new entries or attributes, in the one order and in the
other. -/
inductive GrewBy : Node → Node → Node → Prop
  | dict (type : DictType) (es : Entries) (e f : Value × Value) :
    GrewBy (.dict type es) (.dict type (es ++ [e, f])) (.dict type (es ++ [f, e]))
  | object (type : String) (attrs : List (String × Value)) (e f : String × Value) :
    GrewBy (.object type attrs) (.object type (attrs ++ [e, f])) (.object type (attrs ++ [f, e]))

theorem putSlot_putSlot_self (n : Node) {s : Slot} (hs : s.isSimple = true) (v w : Value) :
    (n.putSlot s v).putSlot s w = n.putSlot s w := by
  cases s with
  | item a i =>
    cases n with
    | list items | deque items => rw [putSlot, putSlot, putSlot, List.set_set]
    | _ => rfl
  | entry a k =>
    cases n with
    | dict type es =>
      rw [putSlot, putSlot, putSlot, put_eq_putPair, put_eq_putPair, put_eq_putPair,
        putPair_putPair_self (Value.equal_self hs)]
    | _ => rfl
  | property a name =>
    cases n with
    | object type attrs =>
      rw [putSlot, putSlot, putSlot, putAttribute_eq_putPair, putAttribute_eq_putPair,
        putAttribute_eq_putPair, putPair_putPair_self (beq_self_eq_true name)]
    | _ => rfl

/-- Putting what a slot holds into it changes nothing. -/
theorem putSlot_slot? {n : Node} (hown : n.StoresOwn σ) {s : Slot} {v : Value}
    (hv : n.slot? σ s = some v) : n.putSlot s v = n := by
  cases s with
  | item a i =>
    cases n with
    | list items | deque items =>
      obtain ⟨hi, rfl⟩ := List.getElem?_eq_some_iff.1 hv
      rw [putSlot, List.set_getElem_self]
    | _ => rfl
  | entry a k =>
    cases n with
    | dict type es =>
      obtain ⟨e, he, rfl⟩ := Option.map_eq_some_iff.1 hv
      obtain ⟨hk, front, back, rfl, hfront⟩ := List.find?_eq_some_iff_append.1 he
      rw [putSlot, put_eq_putPair, putPair_of_stored (fun f hf => by simpa using hfront f hf) hk]
    | _ => rfl
  | property a name =>
    cases n with
    | object type attrs =>
      obtain ⟨hname, hv⟩ := Option.ite_none_right_eq_some.1 hv
      obtain ⟨front, back, rfl, hfront⟩ := List.lookup_eq_some_iff.1 (hown name v hname hv)
      have hne : ∀ e ∈ front, (e.1 == name) = false := fun e he =>
        beq_false_of_ne (Ne.symm (bne_iff_ne.1 (hfront e he)))
      rw [putSlot, putAttribute_eq_putPair, putPair_of_stored hne (beq_self_eq_true name)]
    | _ => rfl

/-- Puts into different slots may change places, but for the order of what is new. -/
theorem putSlot_comm (n : Node) {s t : Slot} (hs : s.isSimple = true) (ht : t.isSimple = true)
    (ha : s.address = t.address) (hne : s ≠ t) (v w : Value) :
    (n.putSlot s v).putSlot t w = (n.putSlot t w).putSlot s v ∨
      n.GrewBy ((n.putSlot s v).putSlot t w) ((n.putSlot t w).putSlot s v) := by
  -- Of slots of different forms, one is not in the node, and a put there does nothing.
  cases s with
  | item a i =>
    cases t with
    | item b j =>
      obtain rfl : a = b := ha
      have hij : i ≠ j := fun h => hne (congrArg (Slot.item a) h)
      cases n with
      | list items | deque items =>
        left
        rw [putSlot, putSlot, putSlot, putSlot, List.set_comm _ _ hij]
      | _ => exact .inl rfl
    | entry | property => cases n <;> exact .inl rfl
  | entry a k =>
    cases t with
    | entry b k' =>
      obtain rfl : a = b := ha
      have hkk' (e : Value) : ¬ (e.equal k = true ∧ e.equal k' = true) := fun he =>
        hne (congrArg (Slot.entry a) (Value.eq_of_equal_of_equal hs ht he.1 he.2))
      cases n with
      | dict type es =>
        simp only [putSlot, put_eq_putPair]
        rcases putPair_comm_or (Value.equal_self hs) (Value.equal_self ht) hkk' es v w with
          h | ⟨h, h'⟩
        · exact .inl (by rw [h])
        · rw [h, h']
          exact .inr (.dict type es _ _)
      | _ => exact .inl rfl
    | item | property => cases n <;> exact .inl rfl
  | property a name =>
    cases t with
    | property b m =>
      obtain rfl : a = b := ha
      have hnm (e : String) : ¬ ((e == name) = true ∧ (e == m) = true) := fun he =>
        hne (congrArg (Slot.property a) ((eq_of_beq he.1).symm.trans (eq_of_beq he.2)))
      cases n with
      | object type attrs =>
        simp only [putSlot, putAttribute_eq_putPair]
        rcases putPair_comm_or (beq_self_eq_true name) (beq_self_eq_true m) hnm attrs v w with
          h | ⟨h, h'⟩
        · exact .inl (by rw [h])
        · rw [h, h']
          exact .inr (.object type attrs _ _)
      | _ => exact .inl rfl
    | item | entry => cases n <;> exact .inl rfl

end Node

/-! ## Heaps -/

namespace Heap

variable {σ : Schema} {h : Heap} {s t : Slot}

/-- Whether what can be read of each instance is stored in it, and not only in its class. -/
def StoresOwn (σ : Schema) (h : Heap) : Prop :=
  ∀ {a : Address} {n : Node}, h.get? a = some n → n.StoresOwn σ

/-- Whether two heaps are the same, or come from an earlier one by two new entries in one dictionary
or two new attributes in one object, in the one order and in the other. -/
def AlikeButNew (h h₁ h₂ : Heap) : Prop :=
  h₁ = h₂ ∨ ∃ a n n₁ n₂, h.get? a = some n ∧ n.GrewBy n₁ n₂ ∧ h₁ = h.set a n₁ ∧ h₂ = h.set a n₂

theorem store_of_get? {n : Node} (hn : h.get? s.address = some n) (v : Value) :
    h.store s v = h.set s.address (n.putSlot s v) := by
  rw [store, hn]

theorem store_of_none (hn : h.get? s.address = none) (v : Value) : h.store s v = h := by
  rw [store, hn]

/-- The second of two stores in one slot counts. -/
theorem store_store_self (hs : s.isSimple = true) (v w : Value) :
    (h.store s v).store s w = h.store s w := by
  cases hn : h.get? s.address with
  | none => rw [store_of_none hn]
  | some n =>
    rw [store_of_get? (get?_store_self hn v), store_of_get? hn, store_of_get? hn, set_set,
      Node.putSlot_putSlot_self n hs]

/-- Storing what a slot holds changes nothing. -/
theorem store_load_self (hown : h.StoresOwn σ) {v : Value} (hv : h.load σ s = some v) :
    h.store s v = h := by
  obtain ⟨n, hn, hv⟩ := Option.bind_eq_some_iff.1 hv
  rw [store_of_get? hn, Node.putSlot_slot? (hown hn) hv, set_self hn]

/-- Stores in different slots may change places, but for the order of what is new. -/
theorem store_comm (hs : s.isSimple = true) (ht : t.isSimple = true) (hne : s ≠ t) (v w : Value) :
    h.AlikeButNew ((h.store s v).store t w) ((h.store t w).store s v) := by
  by_cases ha : s.address = t.address
  · cases hn : h.get? s.address with
    | none =>
      have hn' : h.get? t.address = none := ha ▸ hn
      rw [store_of_none hn, store_of_none hn', store_of_none hn]
      exact .inl rfl
    | some n =>
      have hn' : h.get? t.address = some n := ha ▸ hn
      have hst : (h.store s v).get? t.address = some (n.putSlot s v) := ha ▸ get?_store_self hn v
      have hts : (h.store t w).get? s.address = some (n.putSlot t w) :=
        ha ▸ get?_store_self hn' w
      have h₁ : (h.store s v).store t w = h.set s.address ((n.putSlot s v).putSlot t w) := by
        rw [store_of_get? hst, store_of_get? hn, ← ha, set_set]
      have h₂ : (h.store t w).store s v = h.set s.address ((n.putSlot t w).putSlot s v) := by
        rw [store_of_get? hts, store_of_get? hn', ← ha, set_set]
      rw [h₁, h₂]
      rcases Node.putSlot_comm n hs ht ha hne v w with heq | hgrew
      · exact .inl (by rw [heq])
      · exact .inr ⟨_, n, _, _, hn, hgrew, rfl, rfl⟩
  · left
    cases hn : h.get? s.address with
    | none =>
      have hts : (h.store t w).get? s.address = none :=
        (get?_store_of_ne (Ne.symm ha) w).trans hn
      rw [store_of_none hn, store_of_none hts]
    | some n =>
      have hts : (h.store t w).get? s.address = some n :=
        (get?_store_of_ne (Ne.symm ha) w).trans hn
      rw [store_of_get? hn, store_of_get? hts]
      cases hm : h.get? t.address with
      | none =>
        have hst : (h.set s.address (n.putSlot s v)).get? t.address = none :=
          (get?_set_ne _ ha).trans hm
        rw [store_of_none hst, store_of_none hm]
      | some m =>
        have hst : (h.set s.address (n.putSlot s v)).get? t.address = some m :=
          (get?_set_ne _ ha).trans hm
        rw [store_of_get? hst, store_of_get? hm, set_comm ha]

end Heap

end Dotpath

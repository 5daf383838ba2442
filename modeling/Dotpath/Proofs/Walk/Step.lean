import Dotpath.Proofs.Graph.Defaults
import Dotpath.Proofs.Graph.Slot
import Dotpath.Proofs.Walk.Readdress
import Dotpath.Walk.Writing

/-!
# Steps and slots

In a heap of ordinary containers the segment of a path denotes one slot of the container at which a
step is taken (`slotAt?`).  A step loads this slot (`result?_step_ref`), and an assignment at the end of
a path stores into it (`put_eq_done`): reading and writing resolve indices, keys and names alike.
So the step that denotes a slot finds what was stored there, and all other steps are as before
(`step_store_self`, `result?_step_store_of_ne`).
-/

namespace Dotpath

namespace Outcome

variable {α β : Type}

/-- The result of a step or a walk, if it has one. -/
def result? : Outcome α → Option α
  | done a => some a
  | fail _ | escape _ => none

theorem result?_eq_some {x : Outcome α} {a : α} : x.result? = some a ↔ x = done a := by
  cases x <;> simp [result?]

@[simp] theorem result?_done (a : α) : (done a).result? = some a := rfl

@[simp] theorem result?_escape (f : Fault) : (escape f : Outcome α).result? = none := rfl

@[simp] theorem result?_ofExcept (r : Except Fault α) : (ofExcept r).result? = r.toOption := by
  cases r <;> rfl

@[simp] theorem result?_failAt (problem : Problem) (p : Path) (i : Int)
    (cause : Option FaultKind) : (failAt problem p i cause : Outcome α).result? = none := by
  unfold failAt
  split <;> rfl

theorem ofExcept_eq_done {r : Except Fault α} {a : α} : ofExcept r = done a ↔ r = .ok a := by
  cases r <;> simp [ofExcept]

theorem bind_eq_done {x : Outcome α} {f : α → Outcome β} {b : β} :
    x >>= f = done b ↔ ∃ a, x = done a ∧ f a = done b := by
  cases x <;> simp [Bind.bind, bind]

theorem result?_bind (x : Outcome α) (f : α → Outcome β) :
    (x >>= f).result? = x.result?.bind fun a => (f a).result? := by
  cases x <;> rfl

end Outcome

namespace Heap

variable {σ : Schema} {h : Heap} {keys : Option Deserializer} {p : Path} {i : Int}

/-- The slot that the segment of a path denotes in a container. -/
def slotAt? (h : Heap) (keys : Option Deserializer) (v : Value) (path : Path) (i : Int) :
    Option Slot :=
  match v with
  | .ref a =>
    match h.classify v with
    | .mapping => (mapKey keys path i).result?.map (.entry a)
    | .object => (nameAt path i).result?.map (.property a)
    | .sequence | .array | .primitiveArray => (indexAt path i).result?.map (.item a)
  | _ => none

theorem slotAt?_store (h : Heap) (s : Slot) (v c : Value) :
    (h.store s v).slotAt? keys c p i = h.slotAt? keys c p i := by
  unfold slotAt?
  rw [classify_store]

/-- A slot lies in the container in which it is denoted. -/
theorem eq_ref_of_slotAt? {c : Value} {s : Slot} (hs : h.slotAt? keys c p i = some s) :
    c = .ref s.address := by
  unfold slotAt? at hs
  split at hs
  · split at hs
    all_goals
      obtain ⟨x, -, rfl⟩ := Option.map_eq_some_iff.1 hs
      rfl
  · cases hs

theorem isSimple_of_slotAt? (hkeys : SimpleKeys keys) {c : Value} {s : Slot}
    (hs : h.slotAt? keys c p i = some s) : s.isSimple = true := by
  unfold slotAt? at hs
  split at hs
  · split at hs
    · obtain ⟨k, hk, rfl⟩ := Option.map_eq_some_iff.1 hs
      exact hkeys.isSimpleKey (Outcome.result?_eq_some.1 hk)
    all_goals
      obtain ⟨x, -, rfl⟩ := Option.map_eq_some_iff.1 hs
      rfl
  · cases hs

/-! ## Steps -/

theorem result?_memberAt {v : Value} {n : Nat} (hv : h.length v = .ok n)
    (hrun : ∀ m, h.interruption? v m = none) :
    (h.memberAt v p i).result? =
      (indexAt p i).result?.bind fun m => if m < n then h.member? v m else none := by
  rw [memberAt, Outcome.result?_bind, hv]
  congr 1
  funext m
  dsimp only [Outcome.ofExcept, Outcome.done_bind]
  rw [hrun, ite_self]
  dsimp only
  cases (if m < n then h.member? v m else none) with
  | none => exact Outcome.result?_failAt _ _ _ _
  | some w => rfl

theorem result?_entryAt {a : Address} {type : DictType} {es : Entries}
    (ha : h.get? a = some (.dict type es)) :
    (h.entryAt keys (.ref a) p i).result? = (mapKey keys p i).result?.bind (Entries.find? es) := by
  rw [entryAt, Outcome.result?_bind]
  congr 1
  funext k
  rw [lookUp_of_dict ha]
  dsimp only [Outcome.ofExcept, Outcome.done_bind]
  cases Entries.find? es k with
  | none => exact Outcome.result?_failAt _ _ _ _
  | some w => rfl

theorem result?_propertyFault {α : Type} (v : Value) (f : Fault) :
    (h.propertyFault σ v p i f : Outcome α).result? = none := by
  unfold propertyFault
  split
  · rw [terminalAt, Outcome.result?_bind]
    simp
  · exact Outcome.result?_failAt _ _ _ _
  · cases f.quoted? with
    | some shown => exact Outcome.result?_failAt _ _ _ _
    | none => rfl

theorem assignmentFault_illegalAssignment {α : Type} (v : Value) (message : String) :
    (h.assignmentFault σ v p i (.illegalAssignment message) : Outcome α) =
      failAt (.typeMismatch message) p i (some .illegalAssignment) := rfl

theorem result?_assignmentFault {α : Type} (v : Value) (f : Fault) :
    (h.assignmentFault σ v p i f : Outcome α).result? = none := by
  unfold assignmentFault
  split
  · split
    · exact Outcome.result?_failAt _ _ _ _
    · rfl
  · exact result?_propertyFault v f

theorem result?_propertyAt (v : Value) :
    (h.propertyAt σ v p i).result? =
      (nameAt p i).result?.bind fun name => (h.readProperty σ v (some name)).toOption := by
  rw [propertyAt, Outcome.result?_bind]
  congr 1
  funext name
  cases h.readProperty σ v (some name) with
  | ok w => rfl
  | error f => exact result?_propertyFault v f

theorem readProperty_of_not_object {v : Value} (hv : h.object? v = none) (name : Segment) :
    h.readProperty σ v name = .error (.noProperties (h.typeName v) false) := by
  rw [readProperty, propertiesOf, hv]
  rfl

theorem writeProperty_of_not_object {v x : Value} (hv : h.object? v = none) (name : Segment) :
    h.writeProperty σ v name x = .error (.noProperties (h.typeName v) true, h) := by
  rw [writeProperty, propertiesOf, hv]
  rfl

/-- The kind of an ordinary container, and of an address where there is none. -/
theorem classify_ref (hh : h.IsOrdinary σ) (a : Address) :
    h.classify (.ref a) = match h.get? a with
      | some (.list _) | some (.deque _) => .sequence
      | some (.dict ..) => .mapping
      | _ => .object := by
  cases hn : h.get? a with
  | none => simp [classify, isSequence, isArray, grid?, isMapping, isPrimitiveArray, hn]
  | some n =>
    have hord := hh hn
    cases n with
    | list | deque | dict | object =>
      simp [classify, isSequence, isArray, grid?, isMapping, isPrimitiveArray, hn]
    | _ => exact hord.elim

theorem classify_of_get? {a : Address} {type : String} {attrs : List (String × Value)}
    (hget : h.get? a = some (.object type attrs)) : h.classify (.ref a) = .object := by
  simp [classify, isSequence, isArray, isMapping, isPrimitiveArray, grid?, hget]

/-- Nothing interrupts the run through an ordinary container. -/
theorem IsOrdinary.interruption?_eq_none (hh : h.IsOrdinary σ) (v : Value) (n : Nat) :
    h.interruption? v n = none := by
  unfold interruption?
  split
  · split
    · next hn => exact (hh hn).elim
    · rfl
  · rfl

theorem result?_step_sequence {v : Value} {items : List Value} (hkind : h.classify v = .sequence)
    (hlen : h.length v = .ok items.length) (hmember : ∀ n, h.member? v n = items[n]?)
    (hrun : ∀ n, h.interruption? v n = none) :
    (h.step σ keys v p i).result? = (indexAt p i).result?.bind fun n => items[n]? := by
  rw [step, hkind, stepInto, result?_memberAt hlen hrun]
  congr 1
  funext n
  rw [hmember]
  split
  · rfl
  · next hn => exact (List.getElem?_eq_none (Nat.le_of_not_lt hn)).symm

theorem classify_of_dict {a : Address} {type : DictType} {es : Entries}
    (ha : h.get? a = some (.dict type es)) : h.classify (.ref a) = .mapping := by
  simp [classify, isSequence, isArray, grid?, isMapping, ha]

theorem result?_step_mapping {a : Address} {type : DictType} {es : Entries}
    (ha : h.get? a = some (.dict type es)) :
    (h.step σ keys (.ref a) p i).result? = (mapKey keys p i).result?.bind (Entries.find? es) := by
  rw [step, classify_of_dict ha, stepInto, result?_entryAt ha]

/-- A step to a property, where a load of its slot agrees with the property that is read. -/
theorem result?_step_property {a : Address} (hkind : h.classify (.ref a) = .object)
    (hload : ∀ name, (h.readProperty σ (.ref a) (some name)).toOption =
      h.load σ (.property a name)) :
    (h.step σ keys (.ref a) p i).result? =
      (h.slotAt? keys (.ref a) p i).bind (h.load σ) := by
  rw [step, slotAt?, hkind]
  dsimp only [stepInto]
  rw [result?_propertyAt, Option.bind_map]
  congr 1
  funext name
  exact hload name

/-- A step into a container loads the slot that the segment denotes there. -/
theorem result?_step_ref (hh : h.IsOrdinary σ) (a : Address) :
    (h.step σ keys (.ref a) p i).result? =
      (h.slotAt? keys (.ref a) p i).bind (h.load σ) := by
  have hkind := classify_ref hh a
  cases hn : h.get? a with
  | none =>
    rw [hn] at hkind
    have hobj : h.object? (.ref a) = none := by rw [object?, hn]
    refine result?_step_property hkind fun name => ?_
    rw [readProperty_of_not_object hobj, load, Slot.address, hn]
    rfl
  | some n =>
    have hord := hh hn
    rw [hn] at hkind
    cases n with
    | list items | deque items =>
      have hlen : h.length (.ref a) = .ok items.length := by
        rw [length, hn]; rfl
      have hmember : ∀ n, h.member? (.ref a) n = items[n]? := by
        intro n
        rw [member?, hn]
        rfl
      rw [result?_step_sequence hkind hlen hmember (hh.interruption?_eq_none _),
          slotAt?, hkind, Option.bind_map]
      congr 1
      funext m
      rw [Function.comp, load, Slot.address, hn]
      rfl
    | dict type es =>
      rw [result?_step_mapping hn, slotAt?, hkind, Option.bind_map]
      congr 1
      funext k
      rw [Function.comp, load, Slot.address, hn]
      rfl
    | object type attrs =>
      refine result?_step_property hkind fun name => ?_
      rw [readProperty_toOption hord hn, load, Slot.address, hn]
      rfl
    | _ => exact hord.elim

theorem classify_row (hh : h.IsOrdinary σ) (a : Address) (offset : Nat) (shape : List Nat) :
    h.classify (.row a offset shape) = .object := by
  have hgrid : h.grid? (.row a offset shape) = none := by
    rw [grid?]
    split
    · next hn => exact (hh hn).elim
    · rfl
  rw [classify, isArray, isPrimitiveArray.eq_def, hgrid]
  rfl

/-- No step leads into a value without properties. -/
theorem result?_step_of_object {v : Value} (hkind : h.classify v = .object)
    (hv : h.object? v = none) : (h.step σ keys v p i).result? = none := by
  rw [step, hkind, stepInto, result?_propertyAt]
  simp [readProperty_of_not_object hv, Except.toOption]

/-- A step into a value that lies inline has nothing to do with the heap. -/
theorem result?_step_inline {h' : Heap} (hh : h.IsOrdinary σ) (hh' : h'.IsOrdinary σ) {v : Value}
    (hv : ∀ a, v ≠ .ref a) :
    (h.step σ keys v p i).result? = (h'.step σ keys v p i).result? := by
  cases v with
  | ref a => exact absurd rfl (hv a)
  | scalar => rw [result?_step_of_object rfl rfl, result?_step_of_object rfl rfl]
  | row a o shape =>
    rw [result?_step_of_object (classify_row hh a o shape) rfl,
      result?_step_of_object (classify_row hh' a o shape) rfl]
  | tuple | named | frozenSet | range => rfl

/-! ## What steps leave -/

theorem isMapping_of_classify {v : Value} (hv : h.classify v = .mapping) : h.isMapping v = true := by
  unfold classify at hv
  split at hv
  · cases hv
  · split at hv
    · cases hv
    · split at hv
      · assumption
      · split at hv <;> cases hv

/-- Whether some segment of some path stands for a key. -/
def IsKeyOf (keys : Option Deserializer) (k : Value) : Prop :=
  ∃ (p : Path) (i : Int), mapKey keys p i = .done k

/-- A step adds defaults under keys that segments stand for, and changes nothing else. -/
theorem addsDefaults_leftByStep (h : Heap) (keys : Option Deserializer) (v : Value) (p : Path)
    (i : Int) : h.AddsDefaults (IsKeyOf keys) (h.leftByStep keys v p i) := by
  unfold leftByStep leftByStepInto
  split
  · unfold leftByEntry
    split
    · next k hk =>
      refine (addsDefaults_lookUp h v k).mono ?_
      rintro _ rfl
      exact ⟨p, i, hk⟩
    · exact .refl
    · exact .refl
  · exact .refl

theorem addsDefaults_leftByWalk (σ : Schema) (h : Heap) (keys : Option Deserializer) (v : Value)
    (p : Path) (i : Int) : h.AddsDefaults (IsKeyOf keys) (h.leftByWalk σ keys v p i) := by
  induction hn : (p.size - i).toNat generalizing h v i with
  | zero =>
    rw [leftByWalk_of_le (by omega)]
    exact .refl
  | succ n ih =>
    have hi : i < p.size := by omega
    cases hv : v.isNull with
    | true =>
      rw [leftByWalk_of_isNull hv]
      exact .refl
    | false =>
      have hstep := addsDefaults_leftByStep h keys v p i
      cases hw : h.step σ keys v p i with
      | done w =>
        rw [leftByWalk_of_done hi hv hw]
        exact hstep.trans (ih _ w (i + 1) (by omega))
      | fail | escape =>
        rw [leftByWalk_of_not_done hi hv (by simp [hw])]
        exact hstep

theorem addsDefaults_leftByParent (σ : Schema) (h : Heap) (keys : Option Deserializer) (v : Value)
    (p : Path) : h.AddsDefaults (IsKeyOf keys) (h.leftByParent σ keys v p) := by
  unfold leftByParent
  split
  · exact .refl
  · split
    · exact .refl
    · exact addsDefaults_leftByWalk σ h keys v _ 0

/-- Whether look-ups in mappings change nothing. -/
def IsSteady (h : Heap) : Prop :=
  ∀ v k, h.classify v = .mapping → (h.lookUp v k).2 = h

theorem IsUnwrapped.isSteady (hh : h.IsUnwrapped) : h.IsSteady := fun v k _ => hh.lookUp v k

theorem isSteady_of_dicts
    (hdicts : ∀ a, h.classify (.ref a) = .mapping → ∃ type es, h.get? a = some (.dict type es)) :
    h.IsSteady := by
  intro v k hkind
  cases v with
  | ref a =>
    obtain ⟨type, es, ha⟩ := hdicts a hkind
    rw [lookUp_of_dict ha]
  | _ => cases isMapping_of_classify hkind

theorem IsOrdinary.isSteady (hh : h.IsOrdinary σ) : h.IsSteady := by
  refine isSteady_of_dicts fun a ha => ?_
  rw [classify_ref hh] at ha
  split at ha
  · cases ha
  · cases ha
  · next hget => exact ⟨_, _, hget⟩
  · cases ha

theorem IsSteady.leftByStep (hh : h.IsSteady) (keys : Option Deserializer) (v : Value) (p : Path)
    (i : Int) : h.leftByStep keys v p i = h := by
  unfold Heap.leftByStep leftByStepInto
  split
  · next hkind =>
    unfold leftByEntry
    split
    · exact hh v _ hkind
    · rfl
    · rfl
  · rfl

theorem IsSteady.leftByWalk (hh : h.IsSteady) (σ : Schema) (keys : Option Deserializer) (v : Value)
    (p : Path) (i : Int) : h.leftByWalk σ keys v p i = h := by
  induction hn : (p.size - i).toNat generalizing v i with
  | zero => exact leftByWalk_of_le (by omega)
  | succ n ih =>
    have hi : i < p.size := by omega
    cases hv : v.isNull with
    | true => exact leftByWalk_of_isNull hv
    | false =>
      cases hw : h.step σ keys v p i with
      | done w =>
        rw [leftByWalk_of_done hi hv hw, hh.leftByStep]
        exact ih w (i + 1) (by omega)
      | fail | escape =>
        rw [leftByWalk_of_not_done hi hv (by simp [hw]), hh.leftByStep]

theorem IsSteady.leftByParent (hh : h.IsSteady) (σ : Schema) (keys : Option Deserializer)
    (v : Value) (p : Path) : h.leftByParent σ keys v p = h := by
  unfold Heap.leftByParent
  split
  · rfl
  · split
    · rfl
    · exact hh.leftByWalk σ keys v _ 0

theorem IsOrdinary.leftByStep (hh : h.IsOrdinary σ) (keys : Option Deserializer) (v : Value)
    (p : Path) (i : Int) : h.leftByStep keys v p i = h :=
  hh.isSteady.leftByStep keys v p i

theorem IsOrdinary.leftByWalk (hh : h.IsOrdinary σ) (keys : Option Deserializer) (v : Value)
    (p : Path) (i : Int) : h.leftByWalk σ keys v p i = h :=
  hh.isSteady.leftByWalk σ keys v p i

theorem IsOrdinary.leftByParent (hh : h.IsOrdinary σ) (keys : Option Deserializer) (v : Value)
    (p : Path) : h.leftByParent σ keys v p = h :=
  hh.isSteady.leftByParent σ keys v p

/-! ## Steps after a store -/

variable {s : Slot} {v c : Value}

/-- The step that denotes a slot finds what was stored there. -/
theorem step_store_self (hh : h.IsOrdinary σ) (hkeys : SimpleKeys keys) {n : Node}
    (hs : h.slotAt? keys c p i = some s) (hn : h.get? s.address = some n)
    (hslot : n.hasSlot σ s = true) (v : Value) :
    (h.store s v).step σ keys c p i = .done v := by
  have hc := eq_ref_of_slotAt? hs
  rw [← Outcome.result?_eq_some]
  rw [hc] at hs ⊢
  rw [result?_step_ref (hh.store s v), slotAt?_store, hs, Option.bind_some,
    load_store_self (isSimple_of_slotAt? hkeys hs) hn hslot]

/-- A step that denotes another slot, or none, is as before a store. -/
theorem result?_step_store_of_ne (hh : h.IsOrdinary σ) (hkeys : SimpleKeys keys)
    (hs : s.isSimple = true) (hne : h.slotAt? keys c p i ≠ some s) (v : Value) :
    ((h.store s v).step σ keys c p i).result? = (h.step σ keys c p i).result? := by
  by_cases hc : ∃ a, c = .ref a
  · obtain ⟨a, rfl⟩ := hc
    rw [result?_step_ref (hh.store s v), result?_step_ref hh, slotAt?_store]
    refine Option.bind_congr fun t ht => ?_
    refine load_store_of_ne hs (isSimple_of_slotAt? hkeys ht) (fun hst => hne ?_) v
    rw [ht, hst]
  · exact result?_step_inline (hh.store s v) hh fun a ha => hc ⟨a, ha⟩

/-! ## Assignments -/

theorem accepted_eq_done {r : Except Fault Heap} {h' : Heap}
    (hr : h.accepted v p r = .done h') : r = .ok h' := by
  unfold accepted at hr
  split at hr
  · cases hr
    rfl
  · split at hr
    · exact absurd hr (failAt_ne_done _ _ _ _ _)
    · cases hr

theorem indexAt_of_lastMember {n : Nat} (hn : h.lastMember v p = .done n) :
    indexAt p p.lastIndex = .done n := by
  obtain ⟨m, hm, hn⟩ := Outcome.bind_eq_done.1 hn
  obtain ⟨size, -, hn⟩ := Outcome.bind_eq_done.1 hn
  split at hn
  · cases hn
    exact hm
  · exact absurd hn (failAt_ne_done _ _ _ _ _)

theorem putMember_eq_done {x : Value} {h' : Heap} (hput : h.putMember v p x = .done h') :
    ∃ n, h.lastMember v p = .done n ∧ h.setItem v n x = .ok h' := by
  obtain ⟨n, hn, hset⟩ := Outcome.bind_eq_done.1 hput
  exact ⟨n, hn, accepted_eq_done hset⟩

theorem putKeyed_eq_done {x : Value} {h' : Heap} (hput : h.putKeyed keys v p x = .done h') :
    ∃ k, mapKey keys p p.lastIndex = .done k ∧ h.setKey v k x = .ok h' := by
  obtain ⟨k, hk, hset⟩ := Outcome.bind_eq_done.1 hput
  exact ⟨k, hk, accepted_eq_done hset⟩

theorem putProperty_eq_done {x : Value} {h' : Heap} (hput : h.putProperty σ v p x = .done h') :
    ∃ name, nameAt p p.lastIndex = .done name ∧
      h.writeProperty σ v (some name) x = .ok h' := by
  obtain ⟨name, hname, hwrite⟩ := Outcome.bind_eq_done.1 hput
  refine ⟨name, hname, ?_⟩
  cases hw : h.writeProperty σ v (some name) x with
  | ok h₁ =>
    rw [hw] at hwrite
    cases hwrite
    rfl
  | error stopped =>
    rw [hw] at hwrite
    have hnone := congrArg Outcome.result? hwrite
    dsimp only at hnone
    rw [result?_assignmentFault] at hnone
    cases hnone

/-- Nothing is assigned to a value without properties. -/
theorem put_ne_done_of_object {x : Value} {h' : Heap} (hkind : h.classify c = .object)
    (hc : h.object? c = none) : h.put σ keys c p x ≠ .done h' := by
  intro hput
  rw [put, hkind, putInto] at hput
  obtain ⟨name, -, hwrite⟩ := putProperty_eq_done hput
  rw [writeProperty_of_not_object hc] at hwrite
  cases hwrite

/-- Nothing is assigned to a value that lies inline. -/
theorem put_ne_done_inline (hh : h.IsOrdinary σ) {x : Value} {h' : Heap}
    (hc : ∀ a, c ≠ .ref a) : h.put σ keys c p x ≠ .done h' := by
  cases c with
  | ref a => exact absurd rfl (hc a)
  | scalar => exact put_ne_done_of_object rfl rfl
  | row a o shape => exact put_ne_done_of_object (classify_row hh a o shape) rfl
  | tuple | named | frozenSet | range =>
    intro hput
    obtain ⟨n, -, hset⟩ := putMember_eq_done hput
    cases hset

/-- An assignment at the end of a path stores into the slot that the last segment denotes. -/
theorem put_eq_done (hh : h.IsOrdinary σ) {x : Value} {h' : Heap}
    (hput : h.put σ keys c p x = .done h') :
    ∃ s n, h.slotAt? keys c p p.lastIndex = some s ∧ h.get? s.address = some n ∧
      n.hasSlot σ s = true ∧ h' = h.store s x := by
  -- Nothing is assigned to an inline value, so the container is a node of the heap.
  obtain ⟨a, rfl⟩ : ∃ a, c = .ref a :=
    Classical.byContradiction fun hc =>
      put_ne_done_inline hh (fun a ha => hc ⟨a, ha⟩) hput
  have hkind := classify_ref hh a
  cases hn : h.get? a with
  | none =>
    rw [hn] at hkind
    exact absurd hput (put_ne_done_of_object hkind (by rw [object?, hn]))
  | some n =>
    have hord := hh hn
    rw [hn] at hkind
    rw [put, hkind] at hput
    cases n with
    | list items | deque items =>
      obtain ⟨m, hm, hset⟩ := putMember_eq_done hput
      rw [setItem, hn] at hset
      dsimp only at hset
      split at hset
      · next hlt =>
        refine ⟨.item a m, _, ?_, hn, decide_eq_true hlt, ?_⟩
        · rw [slotAt?, hkind, indexAt_of_lastMember hm]
          rfl
        · rw [store, Slot.address, hn]
          exact (Except.ok.inj hset).symm
      · cases hset
    | dict type es =>
      obtain ⟨k, hk, hset⟩ := putKeyed_eq_done hput
      rw [setKey, setKeyWith, hn] at hset
      refine ⟨.entry a k, _, ?_, hn, rfl, ?_⟩
      · rw [slotAt?, hkind, hk]
        rfl
      · rw [← Except.ok.inj hset, putEntry, store, Slot.address, hn]
        rfl
    | object type attrs =>
      obtain ⟨name, hname, hwrite⟩ := putProperty_eq_done hput
      obtain ⟨hprop, hset⟩ := writeProperty_eq_ok hord hn hwrite
      refine ⟨.property a name, _, ?_, hn, hprop, ?_⟩
      · rw [slotAt?, hkind, hname]
        rfl
      · rw [hset, store, Slot.address, hn]
        rfl
    | _ => exact hord.elim

/-! ## Assignments that fail -/

/-- An assignment that fails leaves the heap, unless the setter of a property has changed it. -/
theorem leftByPut_cases {x : Value} (hfails : ∀ h', h.put σ keys c p x ≠ .done h') :
    h.leftByPut σ c p x = h ∨ ∃ name f, h.classify c = .object ∧
      nameAt p p.lastIndex = .done name ∧
      h.writeProperty σ c (some name) x = .error (f, h.leftByPut σ c p x) := by
  unfold leftByPut leftByPutInto
  split
  · next hkind =>
    unfold leftByProperty
    split
    · next name hname =>
      cases hwrite : h.writeProperty σ c (some name) x with
      | ok h' =>
        refine absurd ?_ (hfails h')
        rw [put, hkind, putInto, putProperty, hname, Outcome.done_bind, hwrite]
        rfl
      | error stopped => exact .inr ⟨name, stopped.1, hkind, hname, hwrite⟩
    · exact .inl rfl
    · exact .inl rfl
  · exact .inl rfl

/-- A write that fails leaves the heap that the walk to the parent has left, unless the setter of a
property has changed it. -/
theorem leftByWrite_cases {host x : Value} (hfails : ∀ h', h.write σ keys host p x ≠ .done h') :
    h.leftByWrite σ keys host p x = h.leftByParent σ keys host p ∨
      ∃ c j name f, h.parentOf σ keys host p = .done (c, j) ∧ c.isNull = false ∧
        (h.leftByParent σ keys host p).classify c = .object ∧
        nameAt p p.lastIndex = .done name ∧
        (h.leftByParent σ keys host p).writeProperty σ c (some name) x =
          .error (f, h.leftByWrite σ keys host p x) := by
  rw [leftByWrite]
  cases hparent : h.parentOf σ keys host p with
  | done found =>
    obtain ⟨c, j⟩ := found
    dsimp only
    split
    · exact .inl rfl
    · next hnull =>
      have hput : ∀ h', (h.leftByParent σ keys host p).put σ keys c p x ≠ .done h' := by
        intro h' hput
        refine hfails h' ?_
        rw [write, hparent, Outcome.done_bind]
        exact (if_neg hnull).trans hput
      rcases leftByPut_cases hput with hleft | ⟨name, f, hkind, hname, hwrite⟩
      · exact .inl hleft
      · exact .inr ⟨c, j, name, f, rfl, Bool.eq_false_iff.2 hnull, hkind, hname, hwrite⟩
  | fail | escape => exact .inl rfl

/-- In a heap of ordinary containers a write that fails changes nothing. -/
theorem IsOrdinary.leftByWrite (hh : h.IsOrdinary σ) {host x : Value}
    (hfails : ∀ h', h.write σ keys host p x ≠ .done h') : h.leftByWrite σ keys host p x = h := by
  rcases leftByWrite_cases hfails with hleft | ⟨c, j, name, f, -, -, -, -, hwrite⟩
  · rw [hleft, hh.leftByParent]
  · rw [hh.leftByParent] at hwrite
    exact eq_of_writeProperty_eq_error (fun a type attrs _ hget => (hh hget).no_properties) hwrite

/-- A write assigns to the value that the path before its last segment leads to, in the heap that the
walk to it leaves. -/
theorem write_of_parentOf {host x : Value} {j : Int}
    (hparent : h.parentOf σ keys host p = .done (c, j)) (hc : c.isNull = false) :
    h.write σ keys host p x = (h.leftByParent σ keys host p).put σ keys c p x := by
  rw [write, hparent, Outcome.done_bind]
  dsimp only
  rw [hc, if_neg Bool.false_ne_true]

end Heap

end Dotpath

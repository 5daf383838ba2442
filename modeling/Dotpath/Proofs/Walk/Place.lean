import Dotpath.Proofs.Graph.Admission
import Dotpath.Proofs.Walk.PutGet

/-!
# The slot of a path

A path addresses the slot that its last segment denotes in the container to which the others lead
(`Heap.place?`).  A write along the path is a checked store in this slot (`result?_write`).

A store in another slot does not change which slot the path addresses, unless the walk to the
container comes to the other slot (`place?_store`).  It may come there and find nothing, so the
slots that count are those of `Heap.exits`, whether something is in them or not.
-/

namespace Dotpath

@[simp] theorem Outcome.result?_readdress {α : Type} (x : Outcome α) (q : Path) (k : Int) :
    (x.readdress q k).result? = x.result? := by
  cases x <;> rfl

namespace Heap

variable {σ : Schema} {h : Heap} {keys : Option Deserializer} {p : Path} {host c v : Value}
  {s t : Slot}

/-- The slot that a path addresses. -/
def place? (σ : Schema) (h : Heap) (keys : Option Deserializer) (host : Value) (p : Path) :
    Option Slot :=
  (h.parentOf σ keys host p).result?.bind fun c => h.slotAt? keys c.1 p p.lastIndex

/-! ## Assignments -/

theorem result?_accepted (c : Value) (p : Path) (r : Except Fault Heap) :
    (h.accepted c p r).result? = r.toOption := by
  unfold accepted
  split
  · rfl
  · split
    · exact Outcome.result?_failAt _ _ _ _
    · rfl

theorem result?_putMember {items : List Value} (hlen : h.length c = .ok items.length)
    (x : Value) : (h.putMember c p x).result? =
      (indexAt p p.lastIndex).result?.bind fun n =>
        if n < items.length then (h.setItem c n x).toOption else none := by
  rw [putMember, lastMember, Outcome.result?_bind, Outcome.result?_bind, Option.bind_assoc]
  congr 1
  funext n
  rw [hlen]
  dsimp only [Outcome.ofExcept, Outcome.done_bind]
  split
  · exact result?_accepted _ _ _
  · rw [Outcome.result?_failAt]
    rfl

theorem result?_putProperty (x : Value) :
    (h.putProperty σ c p x).result? = (nameAt p p.lastIndex).result?.bind fun name =>
      (h.writeProperty σ c (some name) x).toOption := by
  rw [putProperty, Outcome.result?_bind]
  congr 1
  funext name
  cases h.writeProperty σ c (some name) x with
  | ok h' => rfl
  | error stopped => exact result?_assignmentFault c stopped.1

/-- A checked store of an item. -/
theorem storeChecked?_item {a : Address} {n : Nat} {items : List Value} {x : Value}
    (hget : h.get? a = some (.list items) ∨ h.get? a = some (.deque items)) :
    h.storeChecked? σ (.item a n) x =
      if n < items.length then (h.setItem (.ref a) n x).toOption else none := by
  rcases hget with hget | hget
  all_goals
    rw [storeChecked?, accepts?, store, setItem, Slot.address, hget]
    dsimp only [Option.bind_some, Node.accepts?]
    split <;> rfl

/-- Nothing is assigned to a value that lies inline, and no slot is denoted in it. -/
theorem result?_put_inline (hh : h.IsOrdinary σ) (hc : ∀ a, c ≠ .ref a) (x : Value) :
    (h.put σ keys c p x).result? =
      (h.slotAt? keys c p p.lastIndex).bind fun s => h.storeChecked? σ s x := by
  rw [slotAt?, Option.bind_none]
  · cases hr : (h.put σ keys c p x).result? with
    | none => rfl
    | some h' => exact absurd (Outcome.result?_eq_some.1 hr) (put_ne_done_inline hh hc)
  · exact hc

theorem result?_put_sequence {a : Address} {items : List Value}
    (hn : h.get? a = some (.list items) ∨ h.get? a = some (.deque items))
    (hkind : h.classify (.ref a) = .sequence) (x : Value) :
    (h.put σ keys (.ref a) p x).result? =
      (h.slotAt? keys (.ref a) p p.lastIndex).bind fun s => h.storeChecked? σ s x := by
  have hlen : h.length (.ref a) = .ok items.length := by
    rcases hn with hn | hn
    all_goals
      rw [length, hn]
      rfl
  rw [put, slotAt?, hkind]
  dsimp only [putInto]
  rw [result?_putMember hlen, Option.bind_map]
  congr 1
  funext m
  exact (storeChecked?_item hn).symm

theorem result?_put_mapping {a : Address} {type : DictType} {es : Entries}
    (hn : h.get? a = some (.dict type es)) (hkind : h.classify (.ref a) = .mapping) (x : Value) :
    (h.put σ keys (.ref a) p x).result? =
      (h.slotAt? keys (.ref a) p p.lastIndex).bind fun s => h.storeChecked? σ s x := by
  rw [put, slotAt?, hkind]
  dsimp only [putInto]
  rw [putKeyed, Outcome.result?_bind, Option.bind_map]
  congr 1
  funext k
  rw [result?_accepted, Function.comp, setKey, setKeyWith, hn, storeChecked?, accepts?, Slot.address, hn,
    putEntry, store, Slot.address, hn]
  rfl

/-- An assignment to a property, where the checked store agrees with the assigned attribute. -/
theorem result?_put_property {a : Address} {x : Value} (hkind : h.classify (.ref a) = .object)
    (hstore : ∀ name, (h.writeProperty σ (.ref a) (some name) x).toOption =
      h.storeChecked? σ (.property a name) x) :
    (h.put σ keys (.ref a) p x).result? =
      (h.slotAt? keys (.ref a) p p.lastIndex).bind fun s => h.storeChecked? σ s x := by
  rw [put, slotAt?, hkind]
  dsimp only [putInto]
  rw [result?_putProperty, Option.bind_map]
  congr 1
  funext name
  exact hstore name

/-- An assignment at the end of a path is a checked store in the slot that the last segment
denotes. -/
theorem result?_put (hh : h.IsOrdinary σ) (c x : Value) :
    (h.put σ keys c p x).result? =
      (h.slotAt? keys c p p.lastIndex).bind fun s => h.storeChecked? σ s x := by
  cases c with
  | scalar | tuple | named | frozenSet | range | row => exact result?_put_inline hh (by simp) x
  | ref a =>
    have hkind := classify_ref hh a
    cases hn : h.get? a with
    | none =>
      rw [hn] at hkind
      have hobj : h.object? (.ref a) = none := by rw [object?, hn]
      refine result?_put_property hkind fun name => ?_
      rw [writeProperty_of_not_object hobj, storeChecked?, accepts?, Slot.address, hn]
      rfl
    | some n =>
      have hord := hh hn
      rw [hn] at hkind
      cases n with
      | list => exact result?_put_sequence (.inl hn) hkind x
      | deque => exact result?_put_sequence (.inr hn) hkind x
      | dict => exact result?_put_mapping hn hkind x
      | object =>
        exact result?_put_property hkind fun name => writeProperty_toOption hord hn name x
      | _ => exact hord.elim

/-- A write along a path is a checked store in the slot that the path addresses. -/
theorem result?_write (hh : h.IsOrdinary σ) (x : Value) :
    (h.write σ keys host p x).result? =
      (h.place? σ keys host p).bind fun s => h.storeChecked? σ s x := by
  rw [write, Outcome.result?_bind, place?, Option.bind_assoc, hh.leftByParent]
  congr 1
  funext parent
  obtain ⟨c, i⟩ := parent
  dsimp only
  split
  · next hnull =>
    -- Null is no container, so no slot is denoted in it.
    have hslot : h.slotAt? keys c p p.lastIndex = none := by
      cases c with
      | scalar => rfl
      | _ => cases hnull
    rw [Outcome.result?_failAt, hslot, Option.bind_none]
  · exact result?_put hh c x

/-- The write of a value that is not of the declared type of its slot fails. -/
theorem exists_fail_of_mistyped (hh : h.IsOrdinary σ)
    (hs : h.slotAt? keys c p p.lastIndex = some s)
    {d : Option Annotation} (hd : h.accepts? σ s = some d) (hv : h.isAssignable σ d v = false) :
    ∃ f, h.put σ keys c p v = .fail f := by
  obtain rfl := eq_ref_of_slotAt? hs
  cases s with
  | item | entry =>
    obtain rfl := eq_none_of_accepts? hd (by simp)
    cases hv
  | property a name =>
    obtain ⟨n, hn, hd⟩ := Option.bind_eq_some_iff.1 hd
    rw [Slot.address] at hn hs ⊢
    cases n with
    | object type attrs =>
      obtain ⟨-, hd⟩ := Option.ite_none_right_eq_some.1 hd
      obtain ⟨m, hm, rfl⟩ := Option.map_eq_some_iff.1 hd
      have hkind : h.classify (.ref a) = .object := by rw [classify_ref hh, hn]
      rw [slotAt?, hkind] at hs
      obtain ⟨name', hname, hs⟩ := Option.map_eq_some_iff.1 hs
      cases hs
      rw [Outcome.result?_eq_some] at hname
      obtain ⟨segment, hsegment, -⟩ := Outcome.bind_eq_done.1 hname
      have hps := propertiesOf_of_get? hn (Schema.IsPlainClass.computes_eq_false (hh hn) _)
        (Schema.IsPlainClass.computes_eq_false (hh hn) _)
      have hput : h.put σ keys (.ref a) p v =
          h.assignmentFault σ (.ref a) p p.lastIndex (h.illegal (.ref a) m v) := by
        rw [put, hkind, putInto, putProperty, hname, Outcome.done_bind,
          writeProperty_of_mistyped hn hps hm hv]
      rw [hput, illegal, assignmentFault_illegalAssignment,
        failAt_of_segment (Outcome.ofExcept_eq_done.1 hsegment)]
      exact ⟨_, rfl⟩
    | _ => cases hd

/-! ## Places and exits -/

theorem exits_of_place? (hh : h.IsOrdinary σ) (hkeys : SegmentOnly keys)
    (hs : h.place? σ keys host p = some s) :
    (s, p.lastIndex) ∈ h.exits σ keys host p 0 := by
  obtain ⟨⟨c, i⟩, hparent, hs⟩ := Option.bind_eq_some_iff.1 hs
  dsimp only at hs
  have hc : c.isNull = false := by
    rw [eq_ref_of_slotAt? hs]
    rfl
  exact mem_exits_iff.2
    ⟨c, mem_trail_of_parentOf hh hkeys (Outcome.result?_eq_some.1 hparent) hc, hs⟩

theorem isSimple_of_place? (hkeys : SimpleKeys keys) (hs : h.place? σ keys host p = some s) :
    s.isSimple = true := by
  obtain ⟨c, -, hs⟩ := Option.bind_eq_some_iff.1 hs
  exact isSimple_of_slotAt? hkeys hs

/-- A walk along two segments leaves two containers. -/
theorem eq_or_eq_of_mem_exits (hh : h.IsOrdinary σ) (hsize : p.size = 2) {u c : Value}
    (hs : h.slotAt? keys u p 0 = some s) (hc : h.step σ keys u p 0 = .done c)
    (ht : h.slotAt? keys c p 1 = some t) {r : Slot} {k : Int}
    (hr : (r, k) ∈ h.exits σ keys u p 0) : r = s ∧ k = 0 ∨ r = t ∧ k = 1 := by
  obtain ⟨d, hd, hdr⟩ := mem_exits_iff.1 hr
  obtain ⟨-, -, ⟨rfl, rfl⟩ | ⟨w, hw, hd⟩⟩ := (mem_trail_iff hh).1 hd
  · exact .inl ⟨Option.some.inj (hdr.symm.trans hs), rfl⟩
  · obtain rfl : w = c := by simpa [hc] using hw.symm
    obtain ⟨-, -, ⟨rfl, rfl⟩ | ⟨w, -, hd⟩⟩ := (mem_trail_iff hh).1 hd
    · exact .inr ⟨Option.some.inj (hdr.symm.trans ht), rfl⟩
    · have := ((mem_trail_iff hh).1 hd).1
      omega

/-- A walk that does not come to a slot is as before a store there. -/
theorem result?_walk_store (hh : h.IsOrdinary σ) (hkeys : SimpleKeys keys)
    (ht : t.isSimple = true) (v : Value) {u : Value} {i : Int}
    (hfree : ∀ k, (t, k) ∉ h.exits σ keys u p i) :
    ((h.store t v).walk σ keys u p i).result? = (h.walk σ keys u p i).result? := by
  induction hn : (p.size - i).toNat generalizing u i with
  | zero => rw [walk_of_le (by omega), walk_of_le (by omega)]
  | succ n ih =>
    have hi : i < p.size := by omega
    cases hu : u.isNull with
    | true => rw [walk_of_isNull hi hu, walk_of_isNull hi hu]
    | false =>
      have hne : h.slotAt? keys u p i ≠ some t := fun hut =>
        hfree i (mem_exits_iff.2 ⟨u, (mem_trail_iff hh).2 ⟨hi, hu, .inl ⟨rfl, rfl⟩⟩, hut⟩)
      rw [walk_of_lt hi hu, walk_of_lt hi hu, Outcome.result?_bind, Outcome.result?_bind,
        IsOrdinary.leftByStep (hh.store t v), hh.leftByStep, result?_step_store_of_ne hh hkeys ht hne]
      refine Option.bind_congr fun w hw => ih (fun k hk => ?_) (by omega)
      obtain ⟨c, hc, hct⟩ := mem_exits_iff.1 hk
      exact hfree k (mem_exits_iff.2
        ⟨c, (mem_trail_iff hh).2 ⟨hi, hu, .inr ⟨w, Outcome.result?_eq_some.1 hw, hc⟩⟩, hct⟩)

theorem slotAt?_initial (hkeys : SegmentOnly keys) {k : Int} {n : Nat} (h₀ : 0 ≤ k) (hkn : k < n)
    (hn : n ≤ p.size) (c : Value) : h.slotAt? keys c (p.initial n) k = h.slotAt? keys c p k := by
  have hlt : k < (p.initial n).size := by
    rw [Path.size_initial hn]
    exact hkn
  obtain ⟨s, hq, hp⟩ := (p.liesIn_initial n).segment_eq h₀ hlt
  have hindex := indexAt_readdress hq hp
  have hkey := mapKey_readdress hkeys hq hp
  have hname := nameAt_readdress hq hp
  rw [Int.add_zero] at hindex hkey hname
  unfold slotAt?
  rw [hindex, hkey, hname, Outcome.result?_readdress, Outcome.result?_readdress,
    Outcome.result?_readdress]

/-- The way to the parent of a path comes to no other slots than the path. -/
theorem exits_initial (hh : h.IsOrdinary σ) (hkeys : SegmentOnly keys) {n : Nat} (hn : n ≤ p.size)
    {k : Int} (hk : (s, k) ∈ h.exits σ keys host (p.initial n) 0) :
    k < n ∧ (s, k) ∈ h.exits σ keys host p 0 := by
  obtain ⟨c, hc, hs⟩ := mem_exits_iff.1 hk
  obtain ⟨hc, hk, hnull⟩ := (mem_trail_iff_leads hh).1 hc
  rw [Path.size_initial hn] at hk
  rw [slotAt?_initial hkeys hc.le hk hn] at hs
  have hp := hc.of_liesIn hkeys (p.liesIn_initial n) (Int.le_refl 0)
  exact ⟨hk, mem_exits_iff.2 ⟨c, (mem_trail_iff_leads hh).2 ⟨hp, by omega, hnull⟩, hs⟩⟩

/-- A store in a slot to which the walk to the parent does not come leaves the place of a path. -/
theorem place?_store (hh : h.IsOrdinary σ) (hkeys : SimpleKeys keys) (ht : t.isSimple = true)
    (v : Value) (hfree : ∀ k, (t, k) ∈ h.exits σ keys host p 0 → p.lastIndex ≤ k) :
    (h.store t v).place? σ keys host p = h.place? σ keys host p := by
  have hparent : ((h.store t v).parentOf σ keys host p).result? =
      (h.parentOf σ keys host p).result? := by
    rcases Nat.eq_zero_or_pos p.size with hzero | hpos
    · have hnone : p.parent? = none := by
        rw [Path.parent?, Path.isEmpty, List.isEmpty_iff_length_eq_zero.2 hzero]
        rfl
      rw [parentOf, parentOf, hnone]
    · rw [parentOf, parentOf, Path.parent?_eq_initial hpos]
      dsimp only
      split
      · rfl
      · rw [Outcome.result?_bind, Outcome.result?_bind, result?_walk_store hh hkeys ht v]
        intro k hk
        obtain ⟨hlt, hk⟩ := exits_initial hh hkeys.segmentOnly (Nat.sub_le _ _) hk
        have := hfree k hk
        rw [Path.lastIndex] at this
        omega
  rw [place?, place?, hparent]
  refine Option.bind_congr fun c _ => ?_
  rw [slotAt?_store]

end Heap

end Dotpath

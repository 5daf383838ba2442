import Dotpath.Proofs.Walk.Trail
import Dotpath.Walk.Walker

/-!
# Reading what was written

What a write puts at the end of a path is found there again, unless the way to the written slot
already leads through this very slot (`readPath_writePath`).  The write may change containers that the way
passes, and may close a cycle.  But it changes one slot, and every step before the last one loads
another slot (`Unrevisited`), so the second walk takes the same course (`walk_store_of_mem_trail`).
In an acyclic graph no way passes a container twice.
-/

namespace Dotpath

theorem Path.size_of_parent? {p q : Path} (hq : p.parent? = some q) :
    (q.size : Int) = p.lastIndex := by
  obtain ⟨hp, hq⟩ := parent?_eq_some hq
  have hpos := List.length_pos_iff.2 hp
  rw [lastIndex, size, size, hq, List.length_dropLast]
  omega

namespace Heap

variable {σ : Schema} {h : Heap} {keys : Option Deserializer} {p : Path} {host v t : Value}

/-- The slots through which a walk leaves the containers of its trail, with the index of the segment
that denotes each. -/
def exits (σ : Schema) (h : Heap) (keys : Option Deserializer) (v : Value) (path : Path) (i : Int) :
    List (Slot × Int) :=
  (h.trail σ keys v path i).filterMap fun (c, j) => (h.slotAt? keys c path j).map (·, j)

/-- Whether a walk leaves no container through the slot of its last segment before it comes to this
segment. -/
def Unrevisited (σ : Schema) (h : Heap) (keys : Option Deserializer) (host : Value) (p : Path) :
    Prop :=
  ∀ {s : Slot} {i : Int}, (s, p.lastIndex) ∈ h.exits σ keys host p 0 →
    (s, i) ∈ h.exits σ keys host p 0 → p.lastIndex ≤ i

/-- Whether no container that can be reached from a value can be reached from itself. -/
def Acyclic (σ : Schema) (h : Heap) (host : Value) : Prop :=
  ∀ a, Relation.ReflTransGen (h.Holds σ) host (.ref a) →
    ¬ Relation.TransGen (h.Holds σ) (.ref a) (.ref a)

theorem mem_exits_iff {s : Slot} {i j : Int} :
    (s, j) ∈ h.exits σ keys v p i ↔
      ∃ c, (c, j) ∈ h.trail σ keys v p i ∧ h.slotAt? keys c p j = some s := by
  simp only [exits, List.mem_filterMap, Option.map_eq_some_iff, Prod.mk.injEq, Prod.exists]
  constructor
  · rintro ⟨c, k, hc, s', hs, rfl, rfl⟩
    exact ⟨c, hc, hs⟩
  · rintro ⟨c, hc, hs⟩
    exact ⟨c, j, hc, s, hs, rfl, rfl⟩

theorem unrevisited_of_acyclic (hh : h.IsOrdinary σ) (hacyclic : h.Acyclic σ host) :
    h.Unrevisited σ keys host p := by
  intro s i hlast hs
  obtain ⟨t, ht, hts⟩ := mem_exits_iff.1 hlast
  obtain ⟨c, hc, hcs⟩ := mem_exits_iff.1 hs
  refine Int.not_lt.1 fun hlt => ?_
  have hround := transGen_of_mem_trail hh hc ht hlt
  have hreach := reflTransGen_of_mem_trail hh hc
  rw [eq_ref_of_slotAt? hts, eq_ref_of_slotAt? hcs] at hround
  rw [eq_ref_of_slotAt? hcs] at hreach
  exact hacyclic _ hreach hround

/-! ## The course of a write -/

theorem mem_trail_of_parentOf (hh : h.IsOrdinary σ) (hkeys : SegmentOnly keys) {j : Int}
    (hp : h.parentOf σ keys host p = .done (t, j)) (ht : t.isNull = false) :
    (t, p.lastIndex) ∈ h.trail σ keys host p 0 := by
  unfold parentOf at hp
  cases hq : p.parent? with
  | none =>
    rw [hq] at hp
    cases hp
  | some q =>
    rw [hq] at hp
    have hsize := Path.size_of_parent? hq
    have hwalk : h.walk σ keys host q 0 = .done t := by
      dsimp only at hp
      split at hp
      · next hone =>
        -- The parent of a single segment is not walked, but it would lead to the host too.
        cases hp
        exact walk_of_le (by rw [hsize, Path.lastIndex, hone]; decide)
      · obtain ⟨t', hw, hp⟩ := Outcome.bind_eq_done.1 hp
        cases hp
        exact hw
    rw [← hsize]
    exact mem_trail_of_walk hh hkeys (Path.liesIn_of_parent? hq)
      (by rw [Path.lastIndex] at hsize; omega) ht (Int.le_refl 0) (by omega) hwalk

/-- A write stores the value in the slot that the last segment denotes in the last container of the
trail. -/
theorem write_eq_done (hh : h.IsOrdinary σ) (hkeys : SegmentOnly keys) {h' : Heap}
    (hw : h.write σ keys host p v = .done h') :
    ∃ t s n, (t, p.lastIndex) ∈ h.trail σ keys host p 0 ∧
      h.slotAt? keys t p p.lastIndex = some s ∧ h.get? s.address = some n ∧
      n.hasSlot σ s = true ∧ h' = h.store s v := by
  obtain ⟨⟨t, j⟩, hp, hput⟩ := Outcome.bind_eq_done.1 hw
  dsimp only at hput
  split at hput
  · exact absurd hput (failAt_ne_done _ _ _ _ _)
  · next ht =>
    rw [hh.leftByParent] at hput
    obtain ⟨s, n, hs, hn, hslot, rfl⟩ := put_eq_done hh hput
    exact ⟨t, s, n, mem_trail_of_parentOf hh hkeys hp (Bool.eq_false_iff.2 ht), hs, hn,
      hslot, rfl⟩

/-- After a store in a slot that no step before `j` denotes, the walk still comes to the container
at `j`. -/
theorem walk_store_of_mem_trail (hh : h.IsOrdinary σ) (hkeys : SimpleKeys keys) {s : Slot}
    (hs : s.isSimple = true) {u : Value} {i j : Int} (ht : (t, j) ∈ h.trail σ keys u p i)
    (hfree : ∀ {k}, (s, k) ∈ h.exits σ keys u p i → j ≤ k) :
    (h.store s v).walk σ keys u p i = (h.store s v).walk σ keys t p j := by
  -- The invariant along the trail: the slot is not among the exits that are still to come.
  revert hfree
  refine mem_trail_induction hh (motive := fun u i =>
    (∀ {k}, (s, k) ∈ h.exits σ keys u p i → j ≤ k) →
      (h.store s v).walk σ keys u p i = (h.store s v).walk σ keys t p j)
    (fun _ _ _ => rfl) ?_ ht
  intro u w i hi hu hstep ht ih hfree
  have hlt : i < j := by
    have := le_of_mem_trail hh ht
    omega
  have hne : h.slotAt? keys u p i ≠ some s := by
    intro hus
    have := hfree (mem_exits_iff.2 ⟨u, (mem_trail_iff hh).2 ⟨hi, hu, .inl ⟨rfl, rfl⟩⟩, hus⟩)
    omega
  have hstore : (h.store s v).step σ keys u p i = .done w := by
    rw [← Outcome.result?_eq_some, result?_step_store_of_ne hh hkeys hs hne, hstep]
    rfl
  rw [walk_of_lt hi hu, IsOrdinary.leftByStep (hh.store s v), hstore]
  refine ih fun {k} hk => ?_
  obtain ⟨c, hc, hcs⟩ := mem_exits_iff.1 hk
  exact hfree (mem_exits_iff.2 ⟨c, (mem_trail_iff hh).2 ⟨hi, hu, .inr ⟨w, hstep, hc⟩⟩, hcs⟩)

/-- A walk finds what was written at the end of its path. -/
theorem walk_of_write (hh : h.IsOrdinary σ) (hkeys : SimpleKeys keys) {h' : Heap}
    (hw : h.write σ keys host p v = .done h') (hfree : h.Unrevisited σ keys host p) :
    h'.walk σ keys host p 0 = .done v := by
  obtain ⟨t, s, n, ht, hs, hn, hslot, rfl⟩ := write_eq_done hh hkeys.segmentOnly hw
  have hlast := mem_exits_iff.2 ⟨t, ht, hs⟩
  have hlt : p.lastIndex < p.size := by rw [Path.lastIndex]; omega
  rw [walk_store_of_mem_trail hh hkeys (isSimple_of_slotAt? hkeys hs) ht (hfree hlast),
    walk_of_lt hlt (not_null_of_mem_trail hh ht), step_store_self hh hkeys hs hn hslot]
  exact walk_of_le (by rw [Path.lastIndex]; omega)

end Heap

namespace Walker

variable {σ : Schema} {h : Heap} {host v : Value} {p : Path} (w : Walker)

theorem write_eq_done_of_writePath (hwritten : (w.writePath σ h host p v).result = .ok true) :
    h.write σ w.keys host p v = .done (w.writePath σ h host p v).heap := by
  unfold writePath at hwritten ⊢
  cases hr : h.relayed? σ w.keys host p with
  | some r =>
    rw [hr] at hwritten
    cases hs : w.strict <;> simp [hs] at hwritten
  | none =>
    rw [hr] at hwritten
    cases hw : h.write σ w.keys host p v with
    | done h' => rfl
    | fail f =>
      rw [hw] at hwritten
      cases hs : w.strict <;> simp [Outcome.map, Outcome.settle, hs] at hwritten
    | escape f =>
      rw [hw] at hwritten
      cases hwritten

/-- What a walker writes at the end of a path it reads there, in every graph of ordinary containers:
the way to the written slot must not lead through this slot, or the graph must be acyclic before the
value is written. -/
theorem readPath_writePath (hh : h.IsOrdinary σ) (hkeys : SimpleKeys w.keys)
    (hwritten : (w.writePath σ h host p v).result = .ok true)
    (hfree : h.Unrevisited σ w.keys host p ∨ h.Acyclic σ host) :
    (w.writePath σ h host p v).heap.walk σ w.keys host p 0 = .done v ∧
      (w.readPath σ (w.writePath σ h host p v).heap host p).result = .ok v := by
  have hfree : h.Unrevisited σ w.keys host p := by
    rcases hfree with hfree | hacyclic
    · exact hfree
    · exact Heap.unrevisited_of_acyclic hh hacyclic
  have hwalk := Heap.walk_of_write hh hkeys (w.write_eq_done_of_writePath hwritten) hfree
  refine ⟨hwalk, ?_⟩
  rw [readPath, readFrom, hwalk]
  rfl

/-- A dictionary that holds itself. -/
def selfHolding : Heap := ⟨#[.dict .plain [(.scalar (.text "self"), .ref 0)]]⟩

/-- A dictionary that holds nothing. -/
def holdingNothing : Heap := ⟨#[.dict .plain []]⟩

theorem selfHolding_unrevisited :
    selfHolding.Unrevisited {} none (.ref 0) (Path.parse "self.x") := by
  have hexits : selfHolding.exits {} none (.ref 0) (Path.parse "self.x") 0 =
      [(.entry 0 (.scalar (.text "self")), 0), (.entry 0 (.scalar (.text "x")), 1)] := by cbv
  have hlast : (Path.parse "self.x").lastIndex = 1 := by cbv
  intro s i hs hi
  rw [hlast, hexits] at hs
  rw [hexits] at hi
  obtain rfl : s = .entry 0 (.scalar (.text "x")) := by simpa using hs
  obtain rfl : i = 1 := by simpa using hi
  exact Int.le_of_eq hlast

theorem holdingNothing_acyclic (host : Value) : holdingNothing.Acyclic {} host := by
  intro a _ hround
  obtain ⟨b, hb, -⟩ := Relation.TransGen.head'_iff.1 hround
  cases hb with
  | member hc => exact hc a rfl
  | @slot s w hw =>
    obtain ⟨n, hn, hw⟩ := Option.bind_eq_some_iff.1 hw
    obtain rfl : n = .dict .plain [] := by
      simpa [holdingNothing] using List.mem_of_getElem? (Array.getElem?_toList.trans hn)
    cases s <;> cases hw

/-- The way leads twice through one dictionary, by different keys; a dictionary is put into
itself. -/
theorem readPath_writePath_same_container :
    (let r := writePath ⟨[], true, none⟩ {} selfHolding (.ref 0) (Path.parse "self.x")
        (.scalar (.int 5))
     r.heap.walk {} none (.ref 0) (Path.parse "self.x") 0 = .done (.scalar (.int 5)) ∧
      (readPath ⟨[], true, none⟩ {} r.heap (.ref 0) (Path.parse "self.x")).result =
        .ok (.scalar (.int 5))) ∧
      let r := writePath ⟨[], true, some integerKeys⟩ {} holdingNothing (.ref 0) (Path.parse "7")
        (.ref 0)
      r.heap.walk {} (some integerKeys) (.ref 0) (Path.parse "7") 0 = .done (.ref 0) ∧
        (readPath ⟨[], true, some integerKeys⟩ {} r.heap (.ref 0) (Path.parse "7")).result =
          .ok (.ref 0) := by
  constructor
  · exact readPath_writePath _
      (Heap.isOrdinary_iff.2 (by simp [selfHolding, Node.IsOrdinary])) (.inl rfl) (by cbv)
      (.inl selfHolding_unrevisited)
  · exact readPath_writePath _
      (Heap.isOrdinary_iff.2 (by simp [holdingNothing, Node.IsOrdinary])) (.inr rfl) (by cbv)
      (.inr (holdingNothing_acyclic _))

/-- A way that leads through the written slot ends at the new value. -/
example :
    (writePath ⟨[], true, none⟩ {} selfHolding (.ref 0) (Path.parse "self.self")
        (.scalar (.int 5))).heap.walk {} none (.ref 0) (Path.parse "self.self") 0 =
      .fail ⟨.terminalValue "int" "5", Path.parse "self.self", 1, none⟩ := by cbv

end Walker

end Dotpath

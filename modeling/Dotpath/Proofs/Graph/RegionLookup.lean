import Dotpath.Proofs.Graph.Defaults
import Dotpath.Proofs.Graph.Region

/-!
# Look-ups within a region

Two heaps that are the same within a region answer a look-up there alike, and add the same defaults.
The new lists have addresses that were not in use, and stand under the keys that are looked up.  So a
region that has all of these addresses and keys stays a region (`Takes`), and the heaps stay the same
within it; and if they differ in one node outside of it, they still differ in this node alone
(`SameWithin.lookUp`).
-/

namespace Dotpath

namespace Heap

/-- Whether a region has what new defaults bring into it: the addresses that are not in use, and
what lies in the keys, if it has a dictionary with a default. -/
structure Takes (S : Address → Prop) (K : Value → Prop) (h : Heap) : Prop where
  unused : ∀ a, h.nodes.size ≤ a → S a
  keys : ∀ {d es k}, S d → h.get? d = some (.dict .defaulting es) → K k → k.LiesIn S

variable {S : Address → Prop} {K : Value → Prop} {σ : Schema} {h h' : Heap} {a d : Address}
  {k v : Value} {es : Entries} {type : DictType}

/-- It still has this after a default was added. -/
theorem Takes.addDefault (hnew : h.Takes S K) (hd : S d)
    (hn : h.get? d = some (.dict .defaulting es)) (k : Value) : (h.addDefault d k).Takes S K where
  unused a ha := by
    rw [size_addDefault hn] at ha
    exact hnew.unused a (by omega)
  keys _ _ hk := hnew.keys hd hn hk

theorem addDefault_set {o : Address} (hn : h.get? d = some (.dict type es)) (hdo : o ≠ d)
    (ho : o < h.nodes.size) (n : Node) (k : Value) :
    (h.set o n).addDefault d k = (h.addDefault d k).set o n := by
  have hn' : (h.set o n).get? d = some (.dict type es) := (get?_set_ne n hdo).trans hn
  have hsize : (h.set o n).nodes.size = h.nodes.size := Array.size_setIfInBounds
  have halloc : ((h.set o n).alloc (.list [])).1 = (h.alloc (.list [])).1.set o n := by
    refine congrArg Heap.mk (Array.toList_inj.1 ?_)
    simp [alloc, Heap.set, List.set_append_left _ _ ho]
  rw [addDefault_eq hn', addDefault_eq hn, hsize, halloc, set_comm hdo]

namespace SameWithin

/-- A change to a node outside of the region. -/
theorem set {o : Address} (hS : SameWithin σ S h h) (ho : ¬ S o) (n : Node) :
    SameWithin σ S h (h.set o n) where
  size := Array.size_setIfInBounds
  nodes ha := get?_set_ne n fun hoa => ho (hoa ▸ ha)
  closed := hS.closed

/-- A new default under a key of the region keeps two heaps the same. -/
theorem addDefault (hS : SameWithin σ S h h') (hnew : ∀ a, h.nodes.size ≤ a → S a) (hd : S d)
    (hn : h.get? d = some (.dict type es)) (hk : k.LiesIn S) :
    SameWithin σ S (h.addDefault d k) (h'.addDefault d k) := by
  have hn' : h'.get? d = some (.dict type es) := (hS.nodes hd).trans hn
  refine ⟨by rw [size_addDefault hn, size_addDefault hn', hS.size], fun {b} hb => ?_,
    fun {b n} hb hbn c hc => ?_⟩
  · by_cases hbd : b = d
    · subst hbd
      rw [get?_addDefault_self hn, get?_addDefault_self hn', hS.size]
    · by_cases hsize : b = h.nodes.size
      · rw [hsize, get?_addDefault_new hn, ← hS.size, get?_addDefault_new hn']
      · rw [get?_addDefault_of_ne hn k hbd hsize, get?_addDefault_of_ne hn' k hbd (by rwa [hS.size]),
          hS.nodes hb]
  · by_cases hbd : b = d
    · subst hbd
      rw [get?_addDefault_self hn] at hbn
      cases hbn
      have hes : OfPairs (Value.LiesIn S) es := by
        rw [← entries_of_dict hn]
        exact hS.hereditary.entries (liesIn_ref.2 hd)
      have hput := hes.put hk (liesIn_ref.2 (hnew h.nodes.size (Nat.le_refl _)))
      refine liesIn_items.2 (fun w hw => ?_) c hc
      rcases List.mem_append.1 hw with hw | hw
      · obtain ⟨e, he, rfl⟩ := List.mem_map.1 hw
        exact (hput e he).1
      · obtain ⟨e, he, rfl⟩ := List.mem_map.1 hw
        exact (hput e he).2
    · by_cases hsize : b = h.nodes.size
      · subst hsize
        rw [get?_addDefault_new hn] at hbn
        cases hbn
        cases hc
      · rw [get?_addDefault_of_ne hn k hbd hsize] at hbn
        exact hS.closed hb hbn c hc

/-- Whether two questions are answered alike, and leave heaps that are the same within the region: if
the second heap differs from the first one in a node outside of the region, so do the heaps left. -/
structure Alike {α : Type} (σ : Schema) (S : Address → Prop) (K : Value → Prop) (h h' : Heap)
    (r r' : α × Heap) : Prop where
  result : r'.1 = r.1
  heaps : SameWithin σ S r.2 r'.2
  changes : ∀ {o} n, ¬ S o → h' = h.set o n → r'.2 = r.2.set o n
  takes : r.2.Takes S K

namespace Alike

variable {α β : Type}

theorem of_same (hS : SameWithin σ S h h') (hnew : h.Takes S K) (x : α) :
    Alike σ S K h h' (x, h) (x, h') :=
  ⟨rfl, hS, fun _ _ hset => hset, hnew⟩

/-- What is made of an answer. -/
theorem map {r r' : α × Heap} (hr : Alike σ S K h h' r r') (f : α → β) :
    Alike σ S K h h' (f r.1, r.2) (f r'.1, r'.2) :=
  ⟨congrArg f hr.result, hr.heaps, hr.changes, hr.takes⟩

/-- A question after another. -/
theorem trans {r r' : α × Heap} {s s' : β × Heap} (hr : Alike σ S K h h' r r')
    (hs : Alike σ S K r.2 r'.2 s s') : Alike σ S K h h' s s' :=
  ⟨hs.result, hs.heaps, fun n ho hset => hs.changes n ho (hr.changes n ho hset), hs.takes⟩

end Alike

theorem alike_askInOrder {α : Type} [BEq α] {no : α} {ask : Heap → Address → Except Fault α × Heap}
    (hask : ∀ {h h' : Heap}, SameWithin σ S h h' → h.Takes S K → ∀ d, S d →
      Alike σ S K h h' (ask h d) (ask h' d))
    (hS : SameWithin σ S h h') (hnew : h.Takes S K) {ds : List Address} (hds : ∀ d ∈ ds, S d) :
    Alike σ S K h h' (askInOrder no ask h ds) (askInOrder no ask h' ds) := by
  induction ds generalizing h h' with
  | nil => exact .of_same hS hnew _
  | cons d ds ih =>
    obtain ⟨hd, hds⟩ := List.forall_mem_cons.1 hds
    have hfirst := hask hS hnew d hd
    rw [askInOrder, askInOrder]
    cases hr : ask h d with
    | mk r h₁ =>
      cases hr' : ask h' d with
      | mk r' h₁' =>
        rw [hr, hr'] at hfirst
        obtain rfl : r = r' := hfirst.result.symm
        cases r with
        | error f => exact hfirst
        | ok answer =>
          dsimp only
          split
          · exact hfirst.trans (ih hfirst.heaps hfirst.takes hds)
          · exact hfirst

theorem itemWith (hS : SameWithin σ S h h') (hnew : h.Takes S K) (hk : K k) (fuel : Nat)
    (ha : S a) : Alike σ S K h h' (Heap.itemWith fuel h a k) (Heap.itemWith fuel h' a k) := by
  induction fuel generalizing h h' a with
  | zero => exact .of_same hS hnew _
  | succ fuel ih =>
    have htype : h'.notMapping a = h.notMapping a := by
      rw [notMapping, notMapping, hS.faultTypeName (liesIn_ref.2 ha)]
    rw [Heap.itemWith, Heap.itemWith, hS.nodes ha, htype]
    cases hn : h.get? a with
    | none => exact .of_same hS hnew _
    | some n =>
      have hshown := fun b => hS.shown ha hn (d := b)
      cases n with
      | dict type es =>
        dsimp only
        cases hv : Entries.find? es k with
        | some v => exact .of_same hS hnew _
        | none =>
          dsimp only
          split
          · next htype =>
            subst htype
            exact ⟨by rw [hS.size], hS.addDefault hnew.unused ha hn (hnew.keys ha hn hk),
              fun {o} n ho hset => by
                rw [hset]
                have hoa : o ≠ a := fun hoa => ho (hoa ▸ ha)
                exact addDefault_set hn hoa (Nat.not_le.1 fun hle => ho (hnew.unused o hle)) n k,
              hnew.addDefault ha hn k⟩
          · exact .of_same hS hnew _
      | proxy d | seqMap d => exact ih hS hnew (hshown d (List.mem_singleton_self d))
      | userMap d refusal barred =>
        dsimp only
        split
        · exact .of_same hS hnew _
        · exact ih hS hnew (hshown d (List.mem_singleton_self d))
      | chain ds =>
        refine alike_askInOrder ?_ hS hnew hshown
        intro h h' hS hnew d hd
        exact ih hS hnew hd
      | _ => exact .of_same hS hnew _

theorem containsWith (hS : SameWithin σ S h h') (hnew : h.Takes S K) (hk : K k)
    (fuel : Nat) (ha : S a) :
    Alike σ S K h h' (Heap.containsWith fuel h a k) (Heap.containsWith fuel h' a k) := by
  induction fuel generalizing h h' a with
  | zero => exact .of_same hS hnew _
  | succ fuel ih =>
    have htype : h'.notMapping a = h.notMapping a := by
      rw [notMapping, notMapping, hS.faultTypeName (liesIn_ref.2 ha)]
    rw [Heap.containsWith, Heap.containsWith, hS.nodes ha, htype]
    cases hn : h.get? a with
    | none => exact .of_same hS hnew _
    | some n =>
      have hshown := fun b => hS.shown ha hn (d := b)
      cases n with
      | proxy d => exact ih hS hnew (hshown d (List.mem_singleton_self d))
      | seqMap d =>
        dsimp only
        rw [hS.entries (hshown d (List.mem_singleton_self d))]
        exact .of_same hS hnew _
      | userMap d refusal barred =>
        exact (hS.itemWith hnew hk (fuel + 1) ha).map (Except.map Option.isSome)
      | chain ds =>
        refine alike_askInOrder ?_ hS hnew hshown
        intro h h' hS hnew d hd
        exact ih hS hnew hd
      | _ => exact .of_same hS hnew _

theorem getWith (hS : SameWithin σ S h h') (hnew : h.Takes S K) (hk : K k) (fuel : Nat)
    (ha : S a) : Alike σ S K h h' (Heap.getWith fuel h a k) (Heap.getWith fuel h' a k) := by
  induction fuel generalizing a with
  | zero => exact .of_same hS hnew _
  | succ fuel ih =>
    have htype : h'.notMapping a = h.notMapping a := by
      rw [notMapping, notMapping, hS.faultTypeName (liesIn_ref.2 ha)]
    have hitem {h h' : Heap} (hS : SameWithin σ S h h') (hnew : h.Takes S K) :
        Alike σ S K h h'
          ((Heap.itemWith (fuel + 1) h a k).1.map fun v => v.getD (.scalar .null),
            (Heap.itemWith (fuel + 1) h a k).2)
          ((Heap.itemWith (fuel + 1) h' a k).1.map fun v => v.getD (.scalar .null),
            (Heap.itemWith (fuel + 1) h' a k).2) :=
      (hS.itemWith hnew hk (fuel + 1) ha).map _
    rw [Heap.getWith, Heap.getWith, hS.nodes ha, htype]
    cases hn : h.get? a with
    | none => exact .of_same hS hnew _
    | some n =>
      have hshown := fun b => hS.shown ha hn (d := b)
      cases n with
      | proxy d => exact ih (hshown d (List.mem_singleton_self d))
      | seqMap d => exact hitem hS hnew
      | userMap d refusal barred => exact hitem hS hnew
      | chain ds =>
        have hfirst := hS.containsWith hnew hk (fuel + 1) ha
        dsimp only
        cases hr : Heap.containsWith (fuel + 1) h a k with
        | mk r h₁ =>
          cases hr' : Heap.containsWith (fuel + 1) h' a k with
          | mk r' h₁' =>
            rw [hr, hr'] at hfirst
            obtain rfl : r = r' := hfirst.result.symm
            cases r with
            | error f => exact hfirst.map fun _ => Except.error f
            | ok found =>
              cases found with
              | false => exact hfirst.map fun _ => Except.ok (Value.scalar .null)
              | true => exact hfirst.trans (hitem hfirst.heaps hfirst.takes)
      | _ => exact .of_same hS hnew _

/-- Two heaps that are the same within a region answer a look-up alike and add the same defaults. -/
theorem lookUp (hS : SameWithin σ S h h') (hnew : h.Takes S K) (hv : v.LiesIn S)
    (hk : K k) : Alike σ S K h h' (h.lookUp v k) (h'.lookUp v k) := by
  cases v with
  | ref a =>
    have ha := liesIn_ref.1 hv
    have hfirst := hS.getWith hnew hk (h.nodes.size + 1) ha
    rw [Heap.lookUp, Heap.lookUp, hS.size]
    cases hr : Heap.getWith (h.nodes.size + 1) h a k with
    | mk r h₁ =>
      cases hr' : Heap.getWith (h.nodes.size + 1) h' a k with
      | mk r' h₁' =>
        rw [hr, hr'] at hfirst
        obtain rfl : r = r' := hfirst.result.symm
        cases r with
        | error f => exact hfirst.map fun _ => Except.error f
        | ok w =>
          dsimp only
          split
          · have hsecond := hfirst.heaps.containsWith hfirst.takes hk (h.nodes.size + 1) ha
            exact hfirst.trans (hsecond.map _)
          · exact hfirst.map fun _ => Except.ok (some w)
  | _ =>
    unfold Heap.lookUp
    rw [hS.faultTypeName hv]
    exact .of_same hS hnew _

end SameWithin

end Heap

end Dotpath

import Dotpath.Proofs.Graph.Hereditary
import Dotpath.Walk.Kind
import Mathlib.Data.List.Basic

/-!
# Regions of a heap

A region is a set of addresses.  If the nodes of a region mention only addresses of the region, then
all that can be taken out of a value of the region belongs to it too (`SameWithin.hereditary`), and
whatever the heap holds elsewhere has no influence: two heaps that are the same within the region
show the same members, lengths and kinds of its values (`SameWithin.member?`, `SameWithin.length`,
`SameWithin.classify`), and from each value the same can be reached (`SameWithin.reach`).  What can
be reached from a value lies in every region that holds the value (`Reaches.closed`).
-/

namespace Dotpath

/-- Whether all addresses that lie in a value belong to a region. -/
def Value.LiesIn (S : Address → Prop) (v : Value) : Prop := ∀ a ∈ v.addresses, S a

variable {S : Address → Prop}

theorem mem_addressesOfAll {vs : List Value} {a : Address} :
    a ∈ addressesOfAll vs ↔ ∃ v ∈ vs, a ∈ v.addresses := by
  induction vs with
  | nil => simp [addressesOfAll]
  | cons v vs ih => simp [addressesOfAll, ih]

@[simp] theorem liesIn_ref {a : Address} : (Value.ref a).LiesIn S ↔ S a := by
  simp [Value.LiesIn, Value.addresses]

@[simp] theorem liesIn_row {a : Address} {offset : Nat} {shape : List Nat} :
    (Value.row a offset shape).LiesIn S ↔ S a := by
  simp [Value.LiesIn, Value.addresses]

theorem liesIn_items {items : List Value} :
    (∀ a ∈ addressesOfAll items, S a) ↔ ∀ w ∈ items, w.LiesIn S := by
  simp only [mem_addressesOfAll, Value.LiesIn]
  exact ⟨fun h w hw a ha => h a ⟨w, hw, ha⟩, fun h a ⟨w, hw, ha⟩ => h w hw a ha⟩

namespace Heap

/-- Whether two heaps are the same within a region that mentions nothing outside of itself. -/
structure SameWithin (σ : Schema) (S : Address → Prop) (h h' : Heap) : Prop where
  size : h'.nodes.size = h.nodes.size
  nodes : ∀ {a}, S a → h'.get? a = h.get? a
  closed : ∀ {a n}, S a → h.get? a = some n → ∀ b ∈ n.mentions σ, S b

namespace SameWithin

variable {σ : Schema} {h h' : Heap} {a : Address} {v : Value} {n : Node}

theorem held (hS : SameWithin σ S h h') (ha : S a) (hn : h.get? a = some n) {w : Value}
    (hw : w ∈ n.held σ) : w.LiesIn S :=
  liesIn_items.1 (fun b hb => hS.closed ha hn b (List.mem_append_right _ hb)) w hw

theorem shown (hS : SameWithin σ S h h') (ha : S a) (hn : h.get? a = some n) {d : Address}
    (hd : d ∈ n.shownDicts) : S d :=
  hS.closed ha hn d (List.mem_append_left _ hd)

/-- What lies in a value of the region belongs to the region. -/
theorem hereditary (hS : SameWithin σ S h h') : h.Hereditary σ (Value.LiesIn S) where
  scalar := by rintro s a ⟨⟩
  pair := fun hv hw => liesIn_items.2 (by simp [hv, hw])
  tuple := liesIn_items.1
  named := liesIn_items.1
  frozenSet := liesIn_items.1
  whole := fun _ ha => liesIn_row.2 (liesIn_ref.1 ha)
  part := fun hrow _ => liesIn_row.2 (liesIn_row.1 hrow)
  cell := by
    intro a offset shape hrow w hw
    unfold gridCells at hw
    split at hw
    · next hn => exact hS.held (liesIn_row.1 hrow) hn hw
    · cases hw
  held := fun ha hn _ hw => hS.held (liesIn_ref.1 ha) hn hw
  shown := fun ha hn _ hd => liesIn_ref.2 (hS.shown (liesIn_ref.1 ha) hn hd)

/-! ## Members, lengths and kinds -/

theorem entriesWith (hS : SameWithin σ S h h') {fuel : Nat} {d : Address} (hd : S d) :
    h'.entriesWith fuel d = h.entriesWith fuel d := by
  induction fuel generalizing d with
  | zero => rfl
  | succ fuel ih =>
    rw [Heap.entriesWith, Heap.entriesWith, hS.nodes hd]
    cases hn : h.get? d with
    | none => rfl
    | some n =>
      have hshown := fun b => hS.shown hd hn (d := b)
      cases n with
      | proxy b | userMap b | seqMap b => exact ih (hshown b (List.mem_singleton_self b))
      | chain ds => exact congrArg Entries.chained (List.map_congr_left fun b hb => ih (hshown b hb))
      | _ => rfl

theorem entries (hS : SameWithin σ S h h') {d : Address} (hd : S d) :
    h'.entries d = h.entries d := by
  rw [Heap.entries, Heap.entries, hS.size]
  exact hS.entriesWith hd

theorem gridCells (hS : SameWithin σ S h h') (ha : S a) : h'.gridCells a = h.gridCells a := by
  rw [Heap.gridCells, Heap.gridCells, hS.nodes ha]

theorem mappingEntries (hS : SameWithin σ S h h') (hn : ∀ d ∈ n.shownDicts, S d) :
    h'.mappingEntries? n = h.mappingEntries? n := by
  cases n with
  | proxy d | userMap d refusal | seqMap d =>
    rw [mappingEntries?, mappingEntries?, hS.entries (hn d (List.mem_singleton_self d))]
  | chain ds =>
    exact congrArg (some ∘ Entries.chained) (List.map_congr_left fun d hd => hS.entries (hn d hd))
  | _ => rfl

theorem viewMembers (hS : SameWithin σ S h h') {d : Address} (hd : S d) (part : ViewPart) :
    h'.viewMembers part d = h.viewMembers part d := by
  unfold Heap.viewMembers
  rw [hS.entries hd]

theorem nodeMembers (hS : SameWithin σ S h h') (hn : ∀ d ∈ n.shownDicts, S d) :
    h'.nodeMembers a n = h.nodeMembers a n := by
  cases n with
  | view part d => exact hS.viewMembers (hn d (List.mem_singleton_self d)) part
  | dict | proxy | chain | userMap | seqMap =>
    rw [Heap.nodeMembers, Heap.nodeMembers, hS.mappingEntries hn]
    all_goals simp
  | _ => rfl

theorem member? (hS : SameWithin σ S h h') (hv : v.LiesIn S) (i : Nat) :
    h'.member? v i = h.member? v i := by
  cases v with
  | row a offset shape =>
    rw [Heap.member?, Heap.member?, hS.gridCells (liesIn_row.1 hv)]
  | ref a =>
    rw [Heap.member?, Heap.member?, hS.nodes (liesIn_ref.1 hv)]
    cases hn : h.get? a with
    | none => rfl
    | some n =>
      have hmembers : h'.nodeMembers a n = h.nodeMembers a n :=
        hS.nodeMembers fun d hd => hS.shown (liesIn_ref.1 hv) hn hd
      cases n with
      | grid => rfl
      | _ => exact congrArg (·[i]?) hmembers
  | scalar s => cases s <;> rfl
  | tuple | named | frozenSet | range => rfl

theorem interruption? (hS : SameWithin σ S h h') (hv : v.LiesIn S) (i : Nat) :
    h'.interruption? v i = h.interruption? v i := by
  cases v with
  | ref a => rw [Heap.interruption?, Heap.interruption?, hS.nodes (liesIn_ref.1 hv)]
  | _ => rfl

theorem nodeLength (hS : SameWithin σ S h h') (hn : ∀ d ∈ n.shownDicts, S d) :
    h'.nodeLength a n = h.nodeLength a n := by
  have hmembers : h'.nodeMembers a n = h.nodeMembers a n := hS.nodeMembers hn
  cases n with
  | userSeq | object => rfl
  | grid t shape => cases shape <;> rfl
  | _ => exact congrArg (fun ws : List Value => Except.ok ws.length) hmembers

theorem typeName (hS : SameWithin σ S h h') (hv : v.LiesIn S) : h'.typeName v = h.typeName v := by
  cases v with
  | ref a => rw [Heap.typeName, Heap.typeName, hS.nodes (liesIn_ref.1 hv)]
  | _ => rfl

theorem faultTypeName (hS : SameWithin σ S h h') (hv : v.LiesIn S) :
    h'.faultTypeName v = h.faultTypeName v := by
  cases v with
  | scalar s => cases s <;> rfl
  | _ => exact congrArg Dotpath.faultTypeName (hS.typeName hv)

theorem length (hS : SameWithin σ S h h') (hv : v.LiesIn S) : h'.length v = h.length v := by
  cases v with
  | ref a =>
    rw [Heap.length, Heap.length, hS.nodes (liesIn_ref.1 hv)]
    cases hn : h.get? a with
    | none => rfl
    | some n => exact hS.nodeLength fun d hd => hS.shown (liesIn_ref.1 hv) hn hd
  | row a offset shape => cases shape <;> rfl
  | scalar s => rw [Heap.length, Heap.length, hS.faultTypeName hv]
  | tuple | named | frozenSet | range => rfl

theorem grid? (hS : SameWithin σ S h h') (hv : v.LiesIn S) : h'.grid? v = h.grid? v := by
  cases v with
  | ref a => rw [Heap.grid?, Heap.grid?, hS.nodes (liesIn_ref.1 hv)]
  | row a offset shape => rw [Heap.grid?, Heap.grid?, hS.nodes (liesIn_row.1 hv)]
  | _ => rfl

theorem classify (hS : SameWithin σ S h h') (hv : v.LiesIn S) : h'.classify v = h.classify v := by
  have hsequence : h'.isSequence v = h.isSequence v := by
    cases v with
    | ref a => rw [isSequence, isSequence, hS.nodes (liesIn_ref.1 hv)]
    | _ => rfl
  have hmapping : h'.isMapping v = h.isMapping v := by
    cases v with
    | ref a => rw [isMapping, isMapping, hS.nodes (liesIn_ref.1 hv)]
    | _ => rfl
  have hprimitive : h'.isPrimitiveArray v = h.isPrimitiveArray v := by
    unfold isPrimitiveArray
    rw [hS.grid? hv]
    cases v with
    | ref a => simp only [hS.nodes (liesIn_ref.1 hv)]
    | _ => rfl
  rw [Heap.classify, Heap.classify, hsequence, hmapping, hprimitive, isArray, isArray, hS.grid? hv]

/-! ## What can be reached -/

theorem mentionsAt (hS : SameWithin σ S h h') (ha : S a) :
    h'.mentionsAt σ a = h.mentionsAt σ a := by
  rw [Heap.mentionsAt, Heap.mentionsAt, hS.nodes ha]

theorem closed_mentionsAt (hS : SameWithin σ S h h') (ha : S a) {b : Address}
    (hb : b ∈ h.mentionsAt σ a) : S b := by
  unfold Heap.mentionsAt at hb
  split at hb
  · next hn => exact hS.closed ha hn b hb
  · cases hb

/-- The search never leaves the region, and finds the same in both heaps. -/
theorem reachWith (hS : SameWithin σ S h h') {rounds : Nat} {seen last : List Address}
    (hseen : ∀ b ∈ seen, S b) (hlast : ∀ b ∈ last, S b) :
    h'.reachWith σ rounds seen last = h.reachWith σ rounds seen last ∧
      ∀ b ∈ h.reachWith σ rounds seen last, S b := by
  induction rounds generalizing seen last with
  | zero => exact ⟨rfl, hseen⟩
  | succ rounds ih =>
    have hsame : last.flatMap (h'.mentionsAt σ) = last.flatMap (h.mentionsAt σ) :=
      List.flatMap_congr fun b hb => hS.mentionsAt (hlast b hb)
    have hfound : ∀ b ∈ ((last.flatMap (h.mentionsAt σ)).filter (!seen.contains ·)).eraseDups,
        S b := by
      intro b hb
      obtain ⟨c, hc, hbc⟩ := List.mem_flatMap.1 (List.mem_filter.1 (List.mem_eraseDups.1 hb)).1
      exact hS.closed_mentionsAt (hlast c hc) hbc
    rw [Heap.reachWith, Heap.reachWith, hsame]
    refine ih (fun b hb => ?_) hfound
    exact (List.mem_append.1 hb).elim (hseen b) (hfound b)

theorem reach (hS : SameWithin σ S h h') (hv : v.LiesIn S) :
    h'.reach σ v = h.reach σ v ∧ ∀ b ∈ h.reach σ v, S b := by
  have hstart : ∀ b ∈ v.addresses.eraseDups, S b := fun b hb => hv b (List.mem_eraseDups.1 hb)
  rw [Heap.reach, Heap.reach, hS.size]
  exact hS.reachWith hstart hstart

theorem fuel (hS : SameWithin σ S h h') (hv : v.LiesIn S) : h'.fuel σ v = h.fuel σ v := by
  obtain ⟨hreach, hin⟩ := hS.reach hv
  have hdepth : (h.reach σ v).foldl (fun d a => max d (h'.depthAt σ a)) v.depth =
      (h.reach σ v).foldl (fun d a => max d (h.depthAt σ a)) v.depth := by
    refine List.foldl_ext _ _ _ fun d b hb => ?_
    rw [depthAt, depthAt, hS.nodes (hin b hb)]
  unfold Heap.fuel
  rw [hreach, hS.size, hdepth]

end SameWithin

/-! ## Nodes that can be reached -/

/-- Whether an address can be reached from a value. -/
inductive Reaches (σ : Schema) (h : Heap) (v : Value) : Address → Prop
  | here {a : Address} (ha : a ∈ v.addresses) : Reaches σ h v a
  | there {a b : Address} : Reaches σ h v a → b ∈ h.mentionsAt σ a → Reaches σ h v b

variable {σ : Schema} {h : Heap} {v : Value} {o : Address}

/-- What can be reached belongs to every region that holds the value and mentions nothing outside. -/
theorem Reaches.closed {a : Address} (ha : h.Reaches σ v a) (hv : v.LiesIn S)
    (hS : ∀ {b c}, S b → c ∈ h.mentionsAt σ b → S c) : S a := by
  induction ha with
  | here ha => exact hv _ ha
  | there _ hb ih => exact hS ih hb

end Heap

end Dotpath

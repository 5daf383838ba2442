import Dotpath.Proofs.Graph.Difference
import Dotpath.Proofs.Graph.Region
import Mathlib.Data.List.Perm.Subperm
import Mathlib.Logic.Relation
import Mathlib.Tactic.Linarith

/-!
# Acyclic values

The parts of a value are what its text and its conversion go on to: the members of a tuple, and the
values that a node holds, but of an object only those of its fields.  A value is acyclic if no way
down from part to part goes on forever (`Heap.IsAcyclic`).  No container lies in itself then, so a
way down meets every node once, and it ends before the bound of the recursion is used up
(`IsAcyclic.endsWithin_fuel`).
-/

namespace Dotpath

/-- How deep tuples lie inside each other above the first nodes. -/
def Value.inlineDepth : Value → Nat
  | .ref _ => 0
  | v => v.depth

theorem Value.inlineDepth_le_depth (v : Value) : v.inlineDepth ≤ v.depth := by
  cases v with
  | ref a => exact Nat.zero_le _
  | _ => exact Nat.le_refl _

theorem depth_le_depthOfAll {vs : List Value} {v : Value} (hv : v ∈ vs) :
    v.depth ≤ depthOfAll vs := by
  induction vs with
  | nil => cases hv
  | cons w vs ih =>
    rw [depthOfAll]
    rcases List.mem_cons.1 hv with rfl | hv
    · exact Nat.le_max_left _ _
    · exact Nat.le_trans (ih hv) (Nat.le_max_right _ _)

theorem foldl_max_bounds {α : Type} (f : α → Nat) (as : List α) (d : Nat) :
    d ≤ as.foldl (fun d a => max d (f a)) d ∧
      ∀ a ∈ as, f a ≤ as.foldl (fun d a => max d (f a)) d := by
  induction as generalizing d with
  | nil => exact ⟨Nat.le_refl d, fun a ha => absurd ha List.not_mem_nil⟩
  | cons b as ih =>
    obtain ⟨hd, has⟩ := ih (max d (f b))
    exact ⟨Nat.le_trans (Nat.le_max_left _ _) hd,
      List.forall_mem_cons.2 ⟨Nat.le_trans (Nat.le_max_right _ _) hd, has⟩⟩

/-- What no way down leaves forever does not lie below itself. -/
theorem not_transGen_self {α : Type} {r : α → α → Prop} {a : α} (ha : Acc r a) :
    ¬ Relation.TransGen r a a := by
  induction ha with
  | intro a _ ih =>
    intro hcycle
    cases hcycle with
    | single haa => exact ih a haa (.single haa)
    | tail hab hba => exact ih _ hba (hab.head hba)

/-- The values that a node is made of: those that it holds, of an object those of its fields. -/
def Node.parts (σ : Schema) : Node → List Value
  | .object type attrs => (σ.fields type).filterMap fun f => attrs.lookup f.name
  | n => n.values

theorem Node.mem_held_of_mem_parts {σ : Schema} {n : Node} {w : Value} (hw : w ∈ n.parts σ) :
    w ∈ n.held σ := by
  cases n with
  | object type attrs =>
    obtain ⟨f, -, hf⟩ := List.mem_filterMap.1 hw
    exact List.mem_append_left _ (List.mem_map.2 ⟨_, mem_of_lookup hf, rfl⟩)
  | _ => exact hw

namespace Heap

/-- The values that a value is made of. -/
def parts (σ : Schema) (h : Heap) : Value → List Value
  | .tuple items | .named _ _ items | .frozenSet items => items
  | .row a _ _ => [.ref a]
  | .ref a => ((h.get? a).map (Node.parts σ)).getD []
  | .scalar _ | .range .. => []

/-- Whether a value is a part of another one. -/
def IsPart (σ : Schema) (h : Heap) (w v : Value) : Prop := w ∈ h.parts σ v

/-- Whether every way down from part to part comes to an end. -/
def IsAcyclic (σ : Schema) (h : Heap) (v : Value) : Prop := Acc (h.IsPart σ) v

/-- Whether every way down from a value ends within so many levels, where a node takes two. -/
inductive EndsWithin (σ : Schema) (h : Heap) : Nat → Value → Prop
  | inline {n : Nat} {v : Value} (hv : ∀ a, v ≠ .ref a)
      (hparts : ∀ w ∈ h.parts σ v, EndsWithin σ h n w) : EndsWithin σ h (n + 1) v
  | node {n : Nat} {a : Address} (hparts : ∀ w ∈ h.parts σ (.ref a), EndsWithin σ h n w) :
      EndsWithin σ h (n + 2) (.ref a)

variable {σ : Schema} {h : Heap} {u v w : Value} {a b : Address} {m n : Nat}

theorem EndsWithin.mono (hv : h.EndsWithin σ n v) (hnm : n ≤ m) : h.EndsWithin σ m v := by
  induction hv generalizing m with
  | inline hv _ ih =>
    obtain ⟨m, rfl⟩ := Nat.exists_eq_add_of_lt hnm
    exact .inline hv fun w hw => ih w hw (Nat.le_add_right _ m)
  | node _ ih =>
    obtain ⟨m, rfl⟩ := Nat.exists_eq_add_of_le' (Nat.le_trans (Nat.le_add_left 2 _) hnm)
    exact .node fun w hw => ih w hw (Nat.le_of_add_le_add_right hnm)

theorem EndsWithin.exists_succ (hn : h.EndsWithin σ n v) :
    ∃ m, n = m + 1 ∧ ∀ w ∈ h.parts σ v, h.EndsWithin σ m w := by
  cases hn with
  | inline _ hparts => exact ⟨_, rfl, hparts⟩
  | node hparts => exact ⟨_, rfl, fun w hw => (hparts w hw).mono (Nat.le_succ _)⟩

theorem EndsWithin.of_node (hn : h.EndsWithin σ n (.ref a)) :
    ∃ m, n = m + 2 ∧ ∀ w ∈ h.parts σ (.ref a), h.EndsWithin σ m w := by
  cases hn with
  | inline hv => exact absurd rfl (hv a)
  | node hparts => exact ⟨_, rfl, hparts⟩

/-! ## Parts of nodes -/

theorem parts_of_get? {node : Node} (hn : h.get? a = some node) :
    h.parts σ (.ref a) = node.parts σ := by
  rw [parts, hn]
  rfl

theorem exists_get?_of_mem_parts (hw : w ∈ h.parts σ (.ref a)) :
    ∃ node, h.get? a = some node ∧ w ∈ node.held σ := by
  cases hn : h.get? a with
  | none => simp [parts, hn] at hw
  | some node =>
    rw [parts_of_get? hn] at hw
    exact ⟨node, rfl, Node.mem_held_of_mem_parts hw⟩

theorem depth_le_depthAt (hw : w ∈ h.parts σ (.ref a)) : w.depth ≤ h.depthAt σ a := by
  obtain ⟨node, hn, hheld⟩ := exists_get?_of_mem_parts hw
  rw [depthAt, hn]
  exact depth_le_depthOfAll hheld

theorem addresses_subset_mentionsAt (hw : w ∈ h.parts σ (.ref a)) (hb : b ∈ w.addresses) :
    b ∈ h.mentionsAt σ a := by
  obtain ⟨node, hn, hheld⟩ := exists_get?_of_mem_parts hw
  rw [mentionsAt, hn]
  exact List.mem_append_right _ (mem_addressesOfAll.2 ⟨w, hheld, hb⟩)

theorem addresses_subset_of_inline (hv : ∀ a, v ≠ .ref a) (hw : w ∈ h.parts σ v)
    (hb : b ∈ w.addresses) : b ∈ v.addresses := by
  cases v with
  | tuple items | named type fields items | frozenSet items =>
    exact mem_addressesOfAll.2 ⟨w, hw, hb⟩
  | row c offset shape => rwa [List.mem_singleton.1 hw] at hb
  | ref c => exact absurd rfl (hv c)
  | scalar | range => cases hw

theorem inlineDepth_lt_of_inline (hv : ∀ a, v ≠ .ref a) (hw : w ∈ h.parts σ v) :
    w.inlineDepth < v.inlineDepth := by
  cases v with
  | tuple items | named type fields items | frozenSet items =>
    exact Nat.lt_succ_of_le (Nat.le_trans w.inlineDepth_le_depth (depth_le_depthOfAll hw))
  | row c offset shape =>
    rw [List.mem_singleton.1 hw]
    exact Nat.one_pos
  | ref c => exact absurd rfl (hv c)
  | scalar | range => cases hw

/-! ## The search for what can be reached -/

theorem mem_reachWith_of_mem {seen last : List Address} (ha : a ∈ seen) (rounds : Nat) :
    a ∈ h.reachWith σ rounds seen last := by
  induction rounds generalizing seen last with
  | zero => exact ha
  | succ rounds ih => exact ih (List.mem_append_left _ ha)

theorem mem_reachWith_succ {seen last : List Address} {rounds : Nat}
    (ha : a ∈ h.reachWith σ rounds seen last) : a ∈ h.reachWith σ (rounds + 1) seen last := by
  induction rounds generalizing seen last with
  | zero => exact mem_reachWith_of_mem ha 1
  | succ rounds ih => exact ih ha

/-- Where only the last addresses seen may mention unseen ones, a round sees all that is mentioned. -/
theorem mem_round {seen last : List Address}
    (hseen : ∀ a ∈ seen, a ∉ last → ∀ b ∈ h.mentionsAt σ a, b ∈ seen) (ha : a ∈ seen)
    (hb : b ∈ h.mentionsAt σ a) :
    b ∈ seen ++ ((last.flatMap (h.mentionsAt σ)).filter (!seen.contains ·)).eraseDups := by
  by_cases hbs : b ∈ seen
  · exact List.mem_append_left _ hbs
  · have hlast : a ∈ last := by
      by_contra hlast
      exact hbs (hseen a ha hlast b hb)
    refine List.mem_append_right _ (List.mem_eraseDups.2 (List.mem_filter.2 ⟨?_, ?_⟩))
    · exact List.mem_flatMap.2 ⟨a, hlast, hb⟩
    · simpa using hbs

/-- One more round of a search sees what those seen before mention. -/
theorem mem_reachWith_of_mentionsAt {seen last : List Address} {rounds : Nat}
    (hseen : ∀ a ∈ seen, a ∉ last → ∀ b ∈ h.mentionsAt σ a, b ∈ seen)
    (ha : a ∈ h.reachWith σ rounds seen last) (hb : b ∈ h.mentionsAt σ a) :
    b ∈ h.reachWith σ (rounds + 1) seen last := by
  induction rounds generalizing seen last with
  | zero => exact mem_round hseen ha hb
  | succ rounds ih =>
    refine ih (fun c hc hclast d hd => ?_) ha
    exact mem_round hseen ((List.mem_append.1 hc).resolve_right hclast) hd

/-- What can be reached from a value within some rounds. -/
def reachIn (σ : Schema) (h : Heap) (v : Value) (rounds : Nat) : List Address :=
  h.reachWith σ rounds v.addresses.eraseDups v.addresses.eraseDups

theorem mem_reachIn_zero (ha : a ∈ v.addresses) : a ∈ h.reachIn σ v 0 := List.mem_eraseDups.2 ha

theorem mem_reachIn_succ (ha : a ∈ h.reachIn σ v n) (hb : b ∈ h.mentionsAt σ a) :
    b ∈ h.reachIn σ v (n + 1) :=
  mem_reachWith_of_mentionsAt (fun _ hc hlast => absurd hc hlast) ha hb

theorem mem_reach_of_mem_reachIn (ha : a ∈ h.reachIn σ v n) (hn : n ≤ h.nodes.size) :
    a ∈ h.reach σ v := by
  have hle : ∀ m, n ≤ m → a ∈ h.reachIn σ v m := by
    intro m hm
    induction hm with
    | refl => exact ha
    | step _ ih => exact mem_reachWith_succ ih
  exact hle _ hn

/-- The greatest depth of the tuples in a value and in what can be reached from it. -/
def reachedDepth (σ : Schema) (h : Heap) (v : Value) : Nat :=
  (h.reach σ v).foldl (fun d a => max d (h.depthAt σ a)) v.depth

theorem depth_le_reachedDepth (σ : Schema) (h : Heap) (v : Value) : v.depth ≤ h.reachedDepth σ v :=
  (foldl_max_bounds _ _ _).1

theorem depthAt_le_reachedDepth (ha : a ∈ h.reach σ v) : h.depthAt σ a ≤ h.reachedDepth σ v :=
  (foldl_max_bounds _ _ _).2 a ha

/-! ## Ways down -/

/-- Whether `around` are the nodes on a way down from `u` to a value: each of them once. -/
structure IsAround (σ : Schema) (h : Heap) (u : Value) (around : List Address) (v : Value) :
    Prop where
  nodup : around.Nodup
  lt_size : ∀ b ∈ around, b < h.nodes.size
  below : ∀ b ∈ around, Relation.TransGen (h.IsPart σ) v (.ref b)
  reached : ∀ a ∈ v.addresses, a ∈ h.reachIn σ u around.length

namespace IsAround

variable {around : List Address}

theorem start (v : Value) : h.IsAround σ v [] v where
  nodup := .nil
  lt_size := fun _ hb => absurd hb List.not_mem_nil
  below := fun _ hb => absurd hb List.not_mem_nil
  reached := fun _ ha => mem_reachIn_zero ha

theorem inline (hv : h.IsAround σ u around v) (href : ∀ a, v ≠ .ref a) (hw : w ∈ h.parts σ v) :
    h.IsAround σ u around w where
  nodup := hv.nodup
  lt_size := hv.lt_size
  below := fun b hb => (hv.below b hb).head hw
  reached := fun a ha => hv.reached a (addresses_subset_of_inline href hw ha)

/-- A node that does not lie in itself is none of those around it. -/
theorem not_mem (ha : h.IsAround σ u around (.ref a)) (hacyclic : h.IsAcyclic σ (.ref a)) :
    a ∉ around :=
  fun hmem => not_transGen_self hacyclic (ha.below a hmem)

theorem node (ha : h.IsAround σ u around (.ref a)) (hacyclic : h.IsAcyclic σ (.ref a))
    (hw : w ∈ h.parts σ (.ref a)) : h.IsAround σ u (a :: around) w where
  nodup := List.nodup_cons.2 ⟨ha.not_mem hacyclic, ha.nodup⟩
  lt_size := by
    obtain ⟨_, hn, -⟩ := exists_get?_of_mem_parts hw
    exact List.forall_mem_cons.2 ⟨lt_size_of_get? hn, ha.lt_size⟩
  below := List.forall_mem_cons.2 ⟨.single hw, fun b hb => (ha.below b hb).head hw⟩
  reached := fun b hb =>
    mem_reachIn_succ (ha.reached a (List.mem_singleton_self a)) (addresses_subset_mentionsAt hw hb)

theorem length_le (hv : h.IsAround σ u around v) : around.length ≤ h.nodes.size := by
  have hsub := hv.nodup.subperm fun b hb => List.mem_range.2 (hv.lt_size b hb)
  have hle := hsub.length_le
  rwa [List.length_range] at hle

end IsAround

/-- The levels that the nodes left on a way down take. -/
def levelsLeft (σ : Schema) (h : Heap) (u : Value) (around : List Address) : Nat :=
  (h.nodes.size + 1 - around.length) * (h.reachedDepth σ u + 3)

theorem levelsLeft_cons {around : List Address} (hle : around.length ≤ h.nodes.size) :
    h.levelsLeft σ u around = h.levelsLeft σ u (a :: around) + (h.reachedDepth σ u + 3) := by
  have hsucc : h.nodes.size + 1 - around.length = h.nodes.size - around.length + 1 := by omega
  rw [levelsLeft, levelsLeft, List.length_cons, Nat.add_sub_add_right, hsucc, Nat.succ_mul]

theorem IsAcyclic.endsWithin_of_isAround (hv : h.IsAcyclic σ v) {around : List Address}
    (haround : h.IsAround σ u around v) :
    h.EndsWithin σ (v.inlineDepth + h.levelsLeft σ u around) v := by
  induction hv generalizing around with
  | intro v hacc ih =>
    by_cases href : ∃ a, v = .ref a
    · obtain ⟨a, rfl⟩ := href
      have hacyclic : h.IsAcyclic σ (.ref a) := .intro _ hacc
      have hleft := levelsLeft_cons (σ := σ) (u := u) (a := a) haround.length_le
      have hreached := mem_reach_of_mem_reachIn
        (haround.reached a (List.mem_singleton_self a)) haround.length_le
      have hparts : ∀ w ∈ h.parts σ (.ref a), h.EndsWithin σ
          (h.reachedDepth σ u + h.levelsLeft σ u (a :: around)) w := by
        intro w hw
        have hdepth : w.inlineDepth ≤ h.reachedDepth σ u :=
          Nat.le_trans w.inlineDepth_le_depth
            (Nat.le_trans (depth_le_depthAt hw) (depthAt_le_reachedDepth hreached))
        exact (ih w hw (haround.node hacyclic hw)).mono (Nat.add_le_add_right hdepth _)
      exact (EndsWithin.node hparts).mono (by omega)
    · have href : ∀ a, v ≠ .ref a := fun a hva => href ⟨a, hva⟩
      obtain ⟨n, hn⟩ : ∃ n, v.inlineDepth + h.levelsLeft σ u around = n + 1 := by
        have hpos : 0 < h.levelsLeft σ u around :=
          Nat.mul_pos (Nat.sub_pos_of_lt (Nat.lt_succ_of_le haround.length_le)) (Nat.succ_pos _)
        exact Nat.exists_eq_succ_of_ne_zero (by omega)
      rw [hn]
      refine .inline href fun w hw => (ih w hw (haround.inline href hw)).mono ?_
      have := inlineDepth_lt_of_inline href hw
      omega

/-- The bound of the recursion leaves room for every way down from an acyclic value. -/
theorem IsAcyclic.endsWithin_fuel (hv : h.IsAcyclic σ v) :
    ∃ n, n < h.fuel σ v ∧ h.EndsWithin σ n v := by
  refine ⟨_, ?_, hv.endsWithin_of_isAround (IsAround.start v)⟩
  have hdepth := Nat.le_trans v.inlineDepth_le_depth (depth_le_reachedDepth σ h v)
  have hfuel : (h.nodes.size + 2) * (h.reachedDepth σ v + 5) ≤ h.fuel σ v :=
    Nat.mul_le_mul_left _ (by unfold reachedDepth; omega)
  refine Nat.lt_of_lt_of_le ?_ hfuel
  rw [levelsLeft, List.length_nil, Nat.sub_zero]
  nlinarith

end Heap

end Dotpath

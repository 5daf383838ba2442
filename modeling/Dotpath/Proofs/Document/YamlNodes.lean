import Dotpath.Document.Yaml.Reader
import Dotpath.Proofs.Fault

/-!
# Nodes of a document

While the values of a document are made, its nodes are looked up, and mappings are merged into others.
Neither touches the values made so far: such a step keeps whatever does not speak of the nodes
(`Keeps`, `IgnoresNodes`).
-/

namespace Dotpath

namespace Yaml

namespace Build

variable {α β : Type} {I : Building → Prop}

/-- Whether a step of making values keeps what is known. -/
structure Keeps (I : Building → Prop) (m : Build α) : Prop where
  kept : ∀ {s a s'}, I s → m.run s = .ok (a, s') → I s'

/-- Whether changes of the document's nodes do not matter. -/
def IgnoresNodes (I : Building → Prop) : Prop := ∀ {s : Building} (nodes), I s → I { s with nodes }

namespace Keeps

theorem pure (a : α) : Keeps I (Pure.pure a : Build α) := by
  refine ⟨fun hs hrun => ?_⟩
  cases hrun
  exact hs

theorem throw (f : Fault) : Keeps I (MonadExcept.throw f : Build α) := by
  refine ⟨fun hs hrun => ?_⟩
  cases hrun

theorem bind {m : Build α} {f : α → Build β} (hm : Keeps I m) (hf : ∀ a, Keeps I (f a)) :
    Keeps I (m >>= f) := by
  refine ⟨fun hs hrun => ?_⟩
  obtain ⟨⟨a, s₁⟩, hfirst, hrun⟩ := bind_eq_ok.1 hrun
  exact (hf a).kept (hm.kept hs hfirst) hrun

theorem get : Keeps I (MonadState.get : Build Building) := by
  refine ⟨fun hs hrun => ?_⟩
  cases hrun
  exact hs

theorem modify {f : Building → Building} (hf : ∀ s, I s → I (f s)) :
    Keeps I (modifyGet fun s => (PUnit.unit, f s) : Build PUnit) := by
  refine ⟨fun hs hrun => ?_⟩
  cases hrun
  exact hf _ hs

theorem findM? {f : α → Build Bool} (hf : ∀ a, Keeps I (f a)) (as : List α) :
    Keeps I (as.findM? f) := by
  induction as with
  | nil => exact .pure none
  | cons a as ih =>
    rw [List.findM?]
    refine (hf a).bind fun b => ?_
    cases b with
    | true => exact .pure (some a)
    | false => exact ih

theorem forIn {f : α → PUnit → Build (ForInStep PUnit)} (hf : ∀ a r, Keeps I (f a r))
    (as : List α) (r : PUnit) : Keeps I (ForIn.forIn as r f) := by
  induction as generalizing r with
  | nil => exact .pure r
  | cons a as ih =>
    rw [List.forIn_cons]
    refine (hf a r).bind fun step => ?_
    cases step with
    | done r => exact .pure r
    | yield r => exact ih r

end Keeps

/-! ## Nodes of the document -/

theorem keeps_node (i : NodeId) : Keeps I (node i) := .bind .get fun _ => .pure _

theorem keeps_tagOf (i : NodeId) : Keeps I (tagOf i) := (keeps_node i).bind fun _ => .pure _

theorem keeps_sourceOf (i : NodeId) : Keeps I (sourceOf i) := by
  refine (keeps_node i).bind fun n => ?_
  split
  · exact .pure _
  · exact .pure _

theorem keeps_merges (p : NodeId × NodeId) : Keeps I (merges p) :=
  (keeps_tagOf p.1).bind fun _ => .pure _

theorem keeps_fail : Keeps I (fail : Build α) := .throw .document

theorem keeps_pairsOf (i : NodeId) : Keeps I (pairsOf i) := by
  refine (keeps_node i).bind fun n => ?_
  cases n.content with
  | mapping pairs => exact .pure pairs
  | scalar | sequence => exact keeps_fail

theorem keeps_setPairs (hI : IgnoresNodes I) (i : NodeId) (pairs : List (NodeId × NodeId)) :
    Keeps I (setPairs i pairs) :=
  .modify fun _ hs => hI _ hs

theorem keeps_splitMerge (pairs : List (NodeId × NodeId)) : Keeps I (splitMerge pairs) := by
  induction pairs with
  | nil => exact .pure _
  | cons p pairs ih =>
    rw [splitMerge]
    refine (keeps_merges p).bind fun b => ?_
    cases b with
    | true => exact .pure _
    | false => exact ih.bind fun _ => .pure _

theorem keeps_plainKey (hI : IgnoresNodes I) (i : NodeId) : Keeps I (plainKey i) := by
  refine (keeps_tagOf i).bind fun tag => ?_
  split
  · exact .modify fun _ hs => hI _ hs
  · exact .pure _

/-- Merging mappings changes nodes of the document only. -/
theorem keeps_flatten (hI : IgnoresNodes I) (fuel : Nat) :
    (∀ i merged, Keeps I (flatten i merged fuel)) ∧ (∀ i, Keeps I (flattened i fuel)) ∧
      ∀ items, Keeps I (flattenedAll items fuel) := by
  induction fuel with
  | zero => exact ⟨fun _ _ => keeps_fail, fun _ => keeps_fail, fun _ => keeps_fail⟩
  | succ fuel ih =>
    obtain ⟨hflatten, hflattened, hall⟩ := ih
    refine ⟨fun i merged => ?_, fun i => ?_, fun items => ?_⟩
    · rw [flatten]
      refine .bind (keeps_pairsOf i) fun pairs => ?_
      refine .bind (keeps_splitMerge pairs) ?_
      rintro ⟨before, _ | t, rest⟩
      · refine .bind (.forIn (fun k r => ?_) _ _) fun _ => keeps_setPairs hI i _
        exact .bind (keeps_plainKey hI k.1) fun _ => .pure _
      · refine .bind (keeps_setPairs hI i _) fun _ => .bind (keeps_node t) fun n => ?_
        cases n.content with
        | mapping pairs => exact .bind (hflattened t) fun more => hflatten i (merged ++ more)
        | sequence items =>
          exact .bind (hall items) fun parts => hflatten i (merged ++ parts.reverse.flatten)
        | scalar text => exact .bind keeps_fail fun more => hflatten i (merged ++ more)
    · exact (hflatten i []).bind fun _ => keeps_pairsOf i
    · cases items with
      | nil => exact .pure []
      | cons i items =>
        rw [flattenedAll]
        exact .bind (hflattened i) fun pairs => .bind (hall items) fun rest => .pure (pairs :: rest)

theorem keeps_mergeFuel : Keeps I mergeFuel := .bind .get fun _ => .pure _

theorem keeps_textOf (i : NodeId) (fuel : Nat) : Keeps I (textOf i fuel) := by
  induction fuel generalizing i with
  | zero => exact .throw _
  | succ fuel ih =>
    rw [textOf]
    refine .bind (keeps_node i) fun n => ?_
    cases n.content with
    | scalar text => exact .pure text
    | sequence items => exact keeps_fail
    | mapping pairs =>
      refine .bind (.findM? (fun p => ?_) pairs) fun found => ?_
      · exact .bind (keeps_tagOf p.1) fun tag => .pure (tag == .value)
      cases found with
      | none => exact keeps_fail
      | some p => exact ih p.2

end Build

end Yaml

end Dotpath

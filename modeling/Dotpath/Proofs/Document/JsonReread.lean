import Dotpath.Proofs.Document.JsonValues

/-!
# What comes back out of a JSON text

The JSON text of a tree is read as a value that unfolds to the tree for which the text stands
(`exists_read_json`), unless a key is too long for YAML.
-/

namespace Dotpath

namespace Tree

open Yaml

variable {ns : Array Yaml.Node} {s : Building} {lo : Nat} {j : NodeId} {v : Value} {t : Tree}

/-! ## Nodes of trees -/

theorem Atom.exists_node {a : Atom} (hprints : a.prints = true) : ∃ tag text,
    a.node = ⟨tag, .scalar text⟩ ∧ tag.scalar? text = some (.ok a.viaJson.scalar) := by
  by_cases ha : ∃ text, a = .text text
  · obtain ⟨text, rfl⟩ := ha
    exact ⟨.str, _, rfl, rfl⟩
  · have hne : ∀ text, a ≠ .text text := fun text h => ha ⟨text, h⟩
    refine ⟨.ofPlain a.json, a.json, ?_, a.scalar?_json hne hprints⟩
    cases a with
    | text text => exact absurd rfl (hne text)
    | null | bool | int | float => rfl

mutual

/-- What forms a tree can be made into a value. -/
theorem Forms.formed : ∀ {lo j t}, Forms ns lo j t → t.prints = true → Build.Formed ns j
  | _, _, _, .leaf _ hn, hprints => by
    obtain ⟨tag, text, hnode, hx⟩ := Atom.exists_node hprints
    exact .scalar (hn.trans (congrArg some hnode)) hx
  | _, _, _, .list _ hn hitems, hprints => .list hn (hitems.formed hprints)
  | _, _, _, .dict _ hn hpairs, hprints => .dict hn hpairs.isName (hpairs.formed hprints)

theorem FormItems.formed : ∀ {lo items ts}, FormItems ns lo items ts → printsAll ts = true →
    ∀ i ∈ items, Build.Formed ns i
  | _, _, _, .nil, _ => fun _ hi => absurd hi List.not_mem_nil
  | _, _, _, .cons ht hts, hprints => by
    rw [printsAll, Bool.and_eq_true] at hprints
    exact List.forall_mem_cons.2 ⟨ht.formed hprints.1, hts.formed hprints.2⟩

theorem FormPairs.formed : ∀ {lo pairs fs}, FormPairs ns lo pairs fs → printsEntries fs = true →
    ∀ p ∈ pairs, Build.Formed ns p.2
  | _, _, _, .nil, _ => fun _ hp => absurd hp List.not_mem_nil
  | _, _, _, .cons _ _ ht hfs, hprints => by
    rw [printsEntries, Bool.and_eq_true, Bool.and_eq_true] at hprints
    exact List.forall_mem_cons.2 ⟨ht.formed hprints.1.2, hfs.formed hprints.2⟩

theorem FormPairs.isName : ∀ {lo pairs fs}, FormPairs ns lo pairs fs →
    ∀ p ∈ pairs, ∃ name, Build.IsName ns p.1 name
  | _, _, _, .nil => fun _ hp => absurd hp List.not_mem_nil
  | _, _, _, .cons _ hn _ hfs => List.forall_mem_cons.2 ⟨⟨_, hn⟩, hfs.isName⟩

end

/-! ## Entries -/

/-- Whether a pair is an entry of a tree, and its key comes from the node with the key's text. -/
structure IsEntryOf (ns : Array Yaml.Node) (h : Heap) (e : Yaml.Key × Value) (f : Key × Tree) :
    Prop where
  key : ∃ name i, e.1 = ⟨some i, .scalar (.text name)⟩ ∧ Build.IsName ns i name ∧ f.1 = .text name
  value : h.Unfolds e.2 f.2

variable {h : Heap} {e g : Yaml.Key × Value} {f f' : Key × Tree}

/-- Two keys are one if they have the same text. -/
theorem IsEntryOf.same (hg : IsEntryOf ns h g f') (he : IsEntryOf ns h e f) :
    g.1.same e.1 = decide (f'.1 = f.1) := by
  obtain ⟨name, i, hge, hname, hf⟩ := hg.key
  obtain ⟨name', i', hee, hname', hf'⟩ := he.key
  rw [hge, hee, hf, hf', Yaml.Key.same]
  have hequal : (Value.scalar (.text name)).equal (.scalar (.text name')) =
      decide (Key.text name = Key.text name') := Key.equal_text (.text name) name'
  rw [hequal]
  by_cases heq : name = name'
  · rw [heq, decide_eq_true rfl, Bool.or_true]
  · have hsource : (some i == some i') = false := by
      refine beq_false_of_ne fun h => heq ?_
      cases h
      cases hname.symm.trans hname'
      rfl
    rw [hsource, Bool.false_or]

theorem forall₂_put {es : List (Yaml.Key × Value)} {fs : List (Key × Tree)}
    (hes : List.Forall₂ (IsEntryOf ns h) es fs) (he : IsEntryOf ns h e f) :
    List.Forall₂ (IsEntryOf ns h) (Yaml.Key.put es e.1 e.2) (putEntry fs f.1 f.2) := by
  induction hes with
  | nil => exact .cons he .nil
  | @cons g f' es fs hg hes ih =>
    rw [Yaml.Key.put, putEntry, hg.same he]
    by_cases hkey : f'.1 = f.1
    · rw [decide_eq_true hkey, if_pos rfl, if_pos hkey]
      exact .cons ⟨hkey ▸ hg.key, he.value⟩ hes
    · rw [decide_eq_false hkey, if_neg Bool.false_ne_true, if_neg hkey]
      exact .cons hg ih

/-- The entries of a dictionary made of pairs are those of the tree. -/
theorem forall₂_entries {es : List (Yaml.Key × Value)} {fs : List (Key × Tree)}
    (hes : List.Forall₂ (IsEntryOf ns h) es fs) :
    List.Forall₂ (EntryOf h.Unfolds) (Yaml.Key.entries es) (merged fs) := by
  have hfold : ∀ {es₀ fs₀}, List.Forall₂ (IsEntryOf ns h) es₀ fs₀ →
      List.Forall₂ (IsEntryOf ns h) (es.foldl (fun es e => Yaml.Key.put es e.1 e.2) es₀)
        (fs.foldl (fun fs f => putEntry fs f.1 f.2) fs₀) := by
    induction hes with
    | nil => exact fun h₀ => h₀
    | cons he _ ih => exact fun h₀ => ih (forall₂_put h₀ he)
  refine List.forall₂_map_left_iff.2 ((hfold .nil).imp fun e f he => entryOf_iff.2 ⟨?_, he.value⟩)
  obtain ⟨name, i, hkey, -, hf⟩ := he.key
  rw [hkey, hf]
  rfl

/-! ## Values -/

mutual

/-- A value of a node that forms a tree unfolds to what the tree's JSON text stands for. -/
theorem Forms.unfolds : ∀ {lo j t}, Forms ns lo j t → t.prints = true →
    (∀ {i v}, Build.Made s i v → Build.Holds ns s i v) → ∀ {v}, Build.Made s j v →
      s.heap.Unfolds v t.viaJson
  | _, _, _, .leaf _ hn, hprints, hholds, v, hv => by
    obtain ⟨tag, text, hnode, hx⟩ := Atom.exists_node hprints
    rw [hnode] at hn
    cases hholds hv with
    | scalar hn' hx' =>
      cases hn.symm.trans hn'
      cases hx.symm.trans hx'
      exact .leaf _
    | list hn' | dict hn' => cases hn.symm.trans hn'
  | _, _, _, .list _ hn hitems, hprints, hholds, v, hv => by
    cases hholds hv with
    | list hn' ha hvs =>
      cases hn.symm.trans hn'
      exact .list ha (hitems.unfolds hprints hholds hvs)
    | scalar hn' | dict hn' => cases hn.symm.trans hn'
  | _, _, _, .dict _ hn hpairs, hprints, hholds, v, hv => by
    cases hholds hv with
    | dict hn' ha hes =>
      cases hn.symm.trans hn'
      exact .dict ha (Yaml.Key.distinct_entries _)
        (forall₂_entries (hpairs.unfolds hprints hholds hes))
    | scalar hn' | list hn' => cases hn.symm.trans hn'

theorem FormItems.unfolds : ∀ {lo items ts}, FormItems ns lo items ts → printsAll ts = true →
    (∀ {i v}, Build.Made s i v → Build.Holds ns s i v) → ∀ {vs},
      List.Forall₂ (Build.Made s) items vs → List.Forall₂ s.heap.Unfolds vs (allViaJson ts)
  | _, _, _, .nil, _, _, _, .nil => .nil
  | _, _, _, .cons ht hts, hprints, hholds, _, .cons hv hvs => by
    rw [printsAll, Bool.and_eq_true] at hprints
    exact .cons (ht.unfolds hprints.1 hholds hv) (hts.unfolds hprints.2 hholds hvs)

theorem FormPairs.unfolds : ∀ {lo pairs fs}, FormPairs ns lo pairs fs → printsEntries fs = true →
    (∀ {i v}, Build.Made s i v → Build.Holds ns s i v) → ∀ {es},
      List.Forall₂ (Build.IsPair ns s) pairs es →
        List.Forall₂ (IsEntryOf ns s.heap) es (entriesViaJson fs)
  | _, _, _, .nil, _, _, _, .nil => .nil
  | _, _, _, .cons _ hn ht hfs, hprints, hholds, _, .cons he hes => by
    rw [printsEntries, Bool.and_eq_true, Bool.and_eq_true] at hprints
    refine .cons ⟨?_, ht.unfolds hprints.1.2 hholds he.value⟩ (hfs.unfolds hprints.2 hholds hes)
    obtain ⟨name, hname, hkey⟩ := he.key
    cases hn.symm.trans hname
    exact ⟨_, _, congrArg₂ Yaml.Key.mk he.source hkey, hname, rfl⟩

end

/-- The JSON text of a collection is read as the tree for which it stands. -/
theorem exists_read_json (h : Heap) {t : Tree} (ht : ∀ a, t ≠ leaf a) (hprints : t.prints = true)
    (hshort : t.HasShortKeys) :
    ∃ v h', Yaml.read h (t.json 0) = .ok (v, h') ∧ h'.Unfolds v t.viaJson := by
  obtain ⟨j, ns, hdocument, hforms⟩ := exists_ofTokens t
  obtain ⟨v, s, hrun, hv, hholds⟩ := Build.exists_run_value h (hforms.formed hprints)
  refine ⟨v, s.heap, ?_, hforms.unfolds hprints hholds hv⟩
  have htext : Document.ofText (t.json 0) = .ok ⟨ns, some j⟩ := by
    rw [Document.ofText, tokens_json ht hprints hshort]
    exact hdocument
  rw [Yaml.read, htext]
  change Document.value ⟨ns, some j⟩ h = _
  rw [Document.value]
  dsimp only
  rw [hrun]
  rfl

end Tree

end Dotpath

import Dotpath.Document.Yaml.Node
import Dotpath.Proofs.Document.JsonTokens
import Dotpath.Proofs.Fault

/-!
# The nodes of a JSON text

The tokens of a tree's JSON text are read as nodes that form the tree (`exists_ofTokens`).  Nodes are
numbered on the way: what is under a node comes behind it, so that nothing under it is touched when
the node gets its content at last (`Tree.Forms`).
-/

namespace Dotpath

namespace Tree

open Yaml

/-- The node that an atom is read as. -/
def Atom.node : Atom → Yaml.Node
  | text s => ⟨.str, .scalar (Text.halves s)⟩
  | a => ⟨.ofPlain a.json, .scalar a.json⟩

variable {ns ns' : Array Yaml.Node} {lo lo' : Nat} {j : NodeId} {t : Tree}

mutual

/-- Whether a node that is not below a number forms a tree together with nodes that come later. -/
inductive Forms (ns : Array Yaml.Node) : (lo : Nat) → NodeId → Tree → Prop
  | leaf {lo : Nat} {j : NodeId} {a : Atom} (hlo : lo ≤ j) (hn : ns[j]? = some a.node) :
    Forms ns lo j (.leaf a)
  | list {lo : Nat} {j : NodeId} {items : List NodeId} {ts : List Tree} (hlo : lo ≤ j)
      (hn : ns[j]? = some ⟨.seq, .sequence items⟩) (hitems : FormItems ns (j + 1) items ts) :
    Forms ns lo j (.list ts)
  | dict {lo : Nat} {j : NodeId} {pairs : List (NodeId × NodeId)} {fs : List (Key × Tree)}
      (hlo : lo ≤ j) (hn : ns[j]? = some ⟨.map, .mapping pairs⟩)
      (hpairs : FormPairs ns (j + 1) pairs fs) : Forms ns lo j (.dict fs)

/-- Whether some nodes form some trees. -/
inductive FormItems (ns : Array Yaml.Node) : (lo : Nat) → List NodeId → List Tree → Prop
  | nil {lo : Nat} : FormItems ns lo [] []
  | cons {lo : Nat} {j : NodeId} {items : List NodeId} {t : Tree} {ts : List Tree}
      (ht : Forms ns lo j t) (hts : FormItems ns lo items ts) :
    FormItems ns lo (j :: items) (t :: ts)

/-- Whether some pairs of nodes form the entries of a mapping. -/
inductive FormPairs (ns : Array Yaml.Node) : (lo : Nat) → List (NodeId × NodeId) →
    List (Key × Tree) → Prop
  | nil {lo : Nat} : FormPairs ns lo [] []
  | cons {lo : Nat} {i j : NodeId} {pairs : List (NodeId × NodeId)} {k : Key} {t : Tree}
      {fs : List (Key × Tree)} (hlo : lo ≤ i) (hn : ns[i]? = some ⟨.str, .scalar k.nameViaJson⟩)
      (ht : Forms ns lo j t) (hfs : FormPairs ns lo pairs fs) :
    FormPairs ns lo ((i, j) :: pairs) ((k, t) :: fs)

end

theorem Forms.of_le (ht : Forms ns lo j t) (hle : lo' ≤ lo) : Forms ns lo' j t := by
  cases ht with
  | leaf hlo hn => exact .leaf (hle.trans hlo) hn
  | list hlo hn hitems => exact .list (hle.trans hlo) hn hitems
  | dict hlo hn hpairs => exact .dict (hle.trans hlo) hn hpairs

theorem FormItems.of_le {items : List NodeId} {ts : List Tree} (hts : FormItems ns lo items ts)
    (hle : lo' ≤ lo) : FormItems ns lo' items ts := by
  induction ts generalizing items with
  | nil =>
    cases hts
    exact .nil
  | cons t ts ih =>
    obtain _ | ⟨ht, hts⟩ := hts
    exact .cons (ht.of_le hle) (ih hts)

theorem FormPairs.of_le {pairs : List (NodeId × NodeId)} {fs : List (Key × Tree)}
    (hfs : FormPairs ns lo pairs fs) (hle : lo' ≤ lo) : FormPairs ns lo' pairs fs := by
  induction fs generalizing pairs with
  | nil =>
    cases hfs
    exact .nil
  | cons f fs ih =>
    obtain _ | ⟨hlo, hn, ht, hfs⟩ := hfs
    exact .cons (hle.trans hlo) hn (ht.of_le hle) (ih hfs)

/-- Whether the nodes from a number on are still there. -/
def KeepsFrom (lo : Nat) (ns ns' : Array Yaml.Node) : Prop :=
  ∀ {j n}, lo ≤ j → ns[j]? = some n → ns'[j]? = some n

theorem KeepsFrom.of_le (hns : KeepsFrom lo ns ns') (hle : lo ≤ lo') : KeepsFrom lo' ns ns' :=
  fun hj => hns (hle.trans hj)

mutual

theorem Forms.mono : ∀ {lo j t}, Forms ns lo j t → KeepsFrom lo ns ns' → Forms ns' lo j t
  | _, _, _, .leaf hlo hn, hns => .leaf hlo (hns hlo hn)
  | _, _, _, .list hlo hn hitems, hns =>
    .list hlo (hns hlo hn) (hitems.mono (hns.of_le (Nat.le_succ_of_le hlo)))
  | _, _, _, .dict hlo hn hpairs, hns =>
    .dict hlo (hns hlo hn) (hpairs.mono (hns.of_le (Nat.le_succ_of_le hlo)))

theorem FormItems.mono : ∀ {lo items ts}, FormItems ns lo items ts → KeepsFrom lo ns ns' →
    FormItems ns' lo items ts
  | _, _, _, .nil, _ => .nil
  | _, _, _, .cons ht hts, hns => .cons (ht.mono hns) (hts.mono hns)

theorem FormPairs.mono : ∀ {lo pairs fs}, FormPairs ns lo pairs fs → KeepsFrom lo ns ns' →
    FormPairs ns' lo pairs fs
  | _, _, _, .nil, _ => .nil
  | _, _, _, .cons hlo hn ht hfs, hns => .cons hlo (hns hlo hn) (ht.mono hns) (hfs.mono hns)

end

end Tree

namespace Yaml

namespace Compose

variable {b i : Bool} {fuel : Nat} {more : List Token} {hs : List (String × String)}
  {ns : Array Node} {as : List (String × NodeId)}

theorem run_node_scalar (text : String) (plain : Bool) :
    (node b i (fuel + 1)).run ⟨.scalar text plain :: more, hs, ns, as⟩ =
      .ok (ns.size, ⟨more, hs, ns.push ⟨if plain then .ofPlain text else .str, .scalar text⟩, as⟩) :=
  rfl

theorem run_node_flowSequence :
    (node b i (fuel + 1)).run ⟨.flowSequence :: more, hs, ns, as⟩ =
      (do
        setContent ns.size (.sequence (← flowItems true fuel))
        return ns.size : Compose NodeId).run ⟨more, hs, ns.push ⟨.seq, .sequence []⟩, as⟩ :=
  rfl

theorem run_node_flowMapping :
    (node b i (fuel + 1)).run ⟨.flowMapping :: more, hs, ns, as⟩ =
      (do
        setContent ns.size (.mapping (← flowPairs true fuel))
        return ns.size : Compose NodeId).run ⟨more, hs, ns.push ⟨.map, .mapping []⟩, as⟩ :=
  rfl

theorem run_flowItems_end (first : Bool) :
    (flowItems first (fuel + 1)).run ⟨.flowSequenceEnd :: more, hs, ns, as⟩ =
      .ok ([], ⟨more, hs, ns, as⟩) :=
  rfl

theorem run_flowPairs_end (first : Bool) :
    (flowPairs first (fuel + 1)).run ⟨.flowMappingEnd :: more, hs, ns, as⟩ =
      .ok ([], ⟨more, hs, ns, as⟩) :=
  rfl

/-- Whether a token begins the tokens of a tree. -/
def Opens (t : Token) : Prop :=
  (∃ text plain, t = .scalar text plain) ∨ t = .flowSequence ∨ t = .flowMapping

theorem run_flowItems {t : Token} (ht : Opens t) (first : Bool) :
    (flowItems first (fuel + 1)).run
        ⟨(if first then [] else [.flowEntry]) ++ t :: more, hs, ns, as⟩ =
      (do
        let j ← node false false fuel
        return j :: (← flowItems false fuel) : Compose (List NodeId)).run ⟨t :: more, hs, ns, as⟩ := by
  cases first <;> obtain ⟨text, plain, rfl⟩ | rfl | rfl := ht <;> rfl

theorem run_flowPairs {t : Token} (ht : Opens t) (first : Bool) (name : String) :
    (flowPairs first (fuel + 3)).run
        ⟨(if first then [] else [.flowEntry]) ++
          .key :: .scalar name false :: .value :: t :: more, hs, ns, as⟩ =
      (do
        let v ← node false false (fuel + 1)
        return (ns.size, v) :: (← flowPairs false (fuel + 2)) :
          Compose (List (NodeId × NodeId))).run
        ⟨t :: more, hs, ns.push ⟨.str, .scalar name⟩, as⟩ := by
  cases first <;> obtain ⟨text, plain, rfl⟩ | rfl | rfl := ht <;> rfl

/-- The tokens of one node and nothing else are a document. -/
theorem run_root {t : Token} {j : NodeId} {ns' : Array Node} (ht : Opens t)
    (hnode : (node true false fuel).run ⟨t :: more, hs, ns, as⟩ = .ok (j, ⟨[], hs, ns', as⟩)) :
    (root fuel).run ⟨t :: more, hs, ns, as⟩ = .ok (some j, ⟨[], hs, ns', as⟩) := by
  have hroot : (root fuel).run ⟨t :: more, hs, ns, as⟩ = (do
      let i ← node true false fuel
      modify fun s => { s with tokens := s.tokens.dropWhile (· == .documentEnd) }
      if (← peek).isSome then fail
      else return some i : Compose (Option NodeId)).run ⟨t :: more, hs, ns, as⟩ := by
    obtain ⟨text, plain, rfl⟩ | rfl | rfl := ht <;> rfl
  rw [hroot, run_bind_of_ok hnode]
  rfl

end Compose

end Yaml

namespace Tree

open Yaml

variable {ns ns' : Array Yaml.Node} {j : NodeId}

/-- Whether nodes have been added behind those that there were. -/
structure AddsNodes (ns ns' : Array Yaml.Node) : Prop where
  size_le : ns.size ≤ ns'.size
  same : ∀ j < ns.size, ns'[j]? = ns[j]?

theorem addsNodes_push (ns : Array Yaml.Node) (n : Yaml.Node) : AddsNodes ns (ns.push n) where
  size_le := by rw [Array.size_push]; exact Nat.le_succ _
  same j hj := by rw [Array.getElem?_push, if_neg (Nat.ne_of_lt hj)]

theorem AddsNodes.trans {ns₁ ns₂ ns₃ : Array Yaml.Node} (h₁ : AddsNodes ns₁ ns₂)
    (h₂ : AddsNodes ns₂ ns₃) : AddsNodes ns₁ ns₃ where
  size_le := h₁.size_le.trans h₂.size_le
  same j hj := (h₂.same j (hj.trans_le h₁.size_le)).trans (h₁.same j hj)

theorem AddsNodes.keepsFrom (h : AddsNodes ns ns') (lo : Nat) : KeepsFrom lo ns ns' := by
  intro j n _ hn
  rw [h.same j (Array.getElem?_eq_some_iff.1 hn).1, hn]

/-- The tokens of a tree begin with one that opens a node. -/
theorem exists_tokens_eq (t : Tree) : ∃ tok toks, t.tokens = tok :: toks ∧ Compose.Opens tok := by
  cases t with
  | leaf a =>
    refine ⟨a.token, [], rfl, .inl ?_⟩
    cases a <;> exact ⟨_, _, rfl⟩
  | list ts => exact ⟨_, _, rfl, .inr (.inl rfl)⟩
  | dict fs => exact ⟨_, _, rfl, .inr (.inr rfl)⟩

/-- Whether a row of tokens is read as nodes that form a tree. -/
structure Composes (t : Tree) : Prop where
  run : ∀ (b i : Bool) (fuel : Nat) (more : List Token) (hs : List (String × String))
    (ns : Array Yaml.Node) (as : List (String × NodeId)), 2 * t.tokens.length ≤ fuel →
    ∃ j ns', (Compose.node b i fuel).run ⟨t.tokens ++ more, hs, ns, as⟩ =
      .ok (j, ⟨more, hs, ns', as⟩) ∧ AddsNodes ns ns' ∧ Forms ns' ns.size j t

/-- Whether the tokens of the items of a list are read as nodes that form them. -/
structure ComposesItems (ts : List Tree) : Prop where
  run : ∀ (first : Bool) (fuel : Nat) (more : List Token) (hs : List (String × String))
    (ns : Array Yaml.Node) (as : List (String × NodeId)),
    2 * (itemTokens first ts).length ≤ fuel →
    ∃ items ns', (Compose.flowItems first fuel).run ⟨itemTokens first ts ++ more, hs, ns, as⟩ =
      .ok (items, ⟨more, hs, ns', as⟩) ∧ AddsNodes ns ns' ∧ FormItems ns' ns.size items ts

/-- Whether the tokens of the entries of a mapping are read as nodes that form them. -/
structure ComposesPairs (fs : List (Key × Tree)) : Prop where
  run : ∀ (first : Bool) (fuel : Nat) (more : List Token) (hs : List (String × String))
    (ns : Array Yaml.Node) (as : List (String × NodeId)),
    2 * (pairTokens first fs).length ≤ fuel →
    ∃ pairs ns', (Compose.flowPairs first fuel).run ⟨pairTokens first fs ++ more, hs, ns, as⟩ =
      .ok (pairs, ⟨more, hs, ns', as⟩) ∧ AddsNodes ns ns' ∧ FormPairs ns' ns.size pairs fs

theorem composes_leaf (a : Atom) : (leaf a).Composes := by
  refine ⟨fun b i fuel more hs ns as hfuel => ?_⟩
  obtain ⟨fuel, rfl⟩ : ∃ n, fuel = n + 1 := ⟨fuel - 1, by
    rw [tokens, List.length_singleton] at hfuel
    omega⟩
  refine ⟨ns.size, ns.push a.node, ?_, addsNodes_push ns _, .leaf (Nat.le_refl _) ?_⟩
  · cases a <;> exact Compose.run_node_scalar _ _
  · exact Array.getElem?_push_size

theorem composesItems_nil : ComposesItems [] := by
  refine ⟨fun first fuel more hs ns as hfuel => ?_⟩
  obtain ⟨fuel, rfl⟩ : ∃ n, fuel = n + 1 := ⟨fuel - 1, by
    rw [itemTokens, List.length_singleton] at hfuel
    omega⟩
  exact ⟨[], ns, Compose.run_flowItems_end first, ⟨Nat.le_refl _, fun _ _ => rfl⟩, .nil⟩

theorem composesPairs_nil : ComposesPairs [] := by
  refine ⟨fun first fuel more hs ns as hfuel => ?_⟩
  obtain ⟨fuel, rfl⟩ : ∃ n, fuel = n + 1 := ⟨fuel - 1, by
    rw [pairTokens, List.length_singleton] at hfuel
    omega⟩
  exact ⟨[], ns, Compose.run_flowPairs_end first, ⟨Nat.le_refl _, fun _ _ => rfl⟩, .nil⟩

theorem length_itemTokens_pos (first : Bool) (ts : List Tree) :
    0 < (itemTokens first ts).length := by
  cases ts with
  | nil => exact Nat.one_pos
  | cons t ts =>
    have ht := length_itemTokens_pos false ts
    rw [itemTokens, List.length_append, List.length_append]
    omega

theorem length_pairTokens_pos (first : Bool) (fs : List (Key × Tree)) :
    0 < (pairTokens first fs).length := by
  cases fs with
  | nil => exact Nat.one_pos
  | cons f fs =>
    rw [pairTokens, List.length_append]
    exact Nat.add_pos_right _ (Nat.succ_pos _)

theorem Composes.items_cons {t : Tree} {ts : List Tree} (ht : t.Composes) (hts : ComposesItems ts) :
    ComposesItems (t :: ts) := by
  refine ⟨fun first fuel more hs ns as hfuel => ?_⟩
  obtain ⟨tok, toks, htoks, hopens⟩ := exists_tokens_eq t
  have hlength : t.tokens.length = toks.length + 1 := by rw [htoks, List.length_cons]
  have hpos := length_itemTokens_pos false ts
  rw [itemTokens, List.length_append, List.length_append] at hfuel
  obtain ⟨fuel, rfl⟩ : ∃ n, fuel = n + 1 := ⟨fuel - 1, by omega⟩
  obtain ⟨j, ns₁, hrun, hadds, hforms⟩ := ht.run false false fuel
    (itemTokens false ts ++ more) hs ns as (by omega)
  obtain ⟨items, ns₂, hrun', hadds', hforms'⟩ := hts.run false fuel more hs ns₁ as
    (by omega)
  refine ⟨j :: items, ns₂, ?_, hadds.trans hadds', .cons (hforms.mono (hadds'.keepsFrom _))
    (hforms'.of_le hadds.size_le)⟩
  rw [htoks, List.cons_append] at hrun
  rw [itemTokens, htoks, List.append_assoc, List.append_assoc, List.cons_append,
    Compose.run_flowItems hopens first, run_bind_of_ok hrun, run_bind_of_ok hrun']
  rfl

theorem Composes.pairs_cons {t : Tree} {k : Key} {fs : List (Key × Tree)} (ht : t.Composes)
    (hfs : ComposesPairs fs) : ComposesPairs ((k, t) :: fs) := by
  refine ⟨fun first fuel more hs ns as hfuel => ?_⟩
  obtain ⟨tok, toks, htoks, hopens⟩ := exists_tokens_eq t
  have hlength : t.tokens.length = toks.length + 1 := by rw [htoks, List.length_cons]
  have hpos := length_pairTokens_pos false fs
  rw [pairTokens, List.length_append, List.length_cons, List.length_cons, List.length_cons,
    List.length_append] at hfuel
  obtain ⟨fuel, rfl⟩ : ∃ n, fuel = n + 3 := ⟨fuel - 3, by omega⟩
  have hpush := addsNodes_push ns ⟨.str, .scalar k.nameViaJson⟩
  obtain ⟨j, ns₁, hrun, hadds, hforms⟩ := ht.run false false (fuel + 1)
    (pairTokens false fs ++ more) hs (ns.push ⟨.str, .scalar k.nameViaJson⟩) as (by omega)
  obtain ⟨pairs, ns₂, hrun', hadds', hforms'⟩ := hfs.run false (fuel + 2) more hs ns₁
    as (by omega)
  have hkey : ns₂[ns.size]? = some ⟨.str, .scalar k.nameViaJson⟩ :=
    (hadds.trans hadds').keepsFrom 0 (Nat.zero_le _) Array.getElem?_push_size
  refine ⟨(ns.size, j) :: pairs, ns₂, ?_, hpush.trans (hadds.trans hadds'),
    .cons (Nat.le_refl _) hkey ((hforms.mono (hadds'.keepsFrom _)).of_le hpush.size_le)
      (hforms'.of_le (hpush.trans hadds).size_le)⟩
  rw [htoks, List.cons_append] at hrun
  rw [pairTokens, htoks, List.append_assoc, List.cons_append, List.cons_append, List.cons_append,
    List.append_assoc, List.cons_append, Compose.run_flowPairs hopens first, run_bind_of_ok hrun,
    run_bind_of_ok hrun']
  rfl

theorem getElem?_modify_self {f : Yaml.Node → Yaml.Node} {n : Yaml.Node} (hn : ns[j]? = some n) :
    (ns.modify j f)[j]? = some (f n) := by
  rw [Array.getElem?_modify, if_pos rfl, hn]
  rfl

theorem AddsNodes.modify {n : Yaml.Node} (hns : AddsNodes (ns.push n) ns')
    (f : Yaml.Node → Yaml.Node) : AddsNodes ns (ns'.modify ns.size f) where
  size_le := by
    rw [Array.size_modify]
    exact ((addsNodes_push ns n).trans hns).size_le
  same j hj := by
    rw [Array.getElem?_modify, if_neg (Nat.ne_of_gt hj), ((addsNodes_push ns n).trans hns).same j hj]

theorem keepsFrom_modify (j : NodeId) (f : Yaml.Node → Yaml.Node) :
    KeepsFrom (j + 1) ns (ns.modify j f) := by
  intro i n hi hn
  rw [Array.getElem?_modify, if_neg (Nat.ne_of_lt hi), hn]

theorem ComposesItems.list {ts : List Tree} (hts : ComposesItems ts) : (list ts).Composes := by
  refine ⟨fun b i fuel more hs ns as hfuel => ?_⟩
  rw [tokens, List.length_cons] at hfuel
  obtain ⟨fuel, rfl⟩ : ∃ n, fuel = n + 1 := ⟨fuel - 1, by omega⟩
  obtain ⟨items, ns₁, hrun, hadds, hforms⟩ := hts.run true fuel more hs
    (ns.push ⟨.seq, .sequence []⟩) as (by omega)
  have hself : ns₁[ns.size]? = some ⟨.seq, .sequence []⟩ :=
    hadds.keepsFrom 0 (Nat.zero_le _) Array.getElem?_push_size
  rw [Array.size_push] at hforms
  refine ⟨ns.size, ns₁.modify ns.size ({ · with content := .sequence items }), ?_, hadds.modify _,
    .list (Nat.le_refl _) (getElem?_modify_self hself) (hforms.mono (keepsFrom_modify _ _))⟩
  rw [tokens, List.cons_append, Compose.run_node_flowSequence, run_bind_of_ok hrun]
  rfl

theorem ComposesPairs.dict {fs : List (Key × Tree)} (hfs : ComposesPairs fs) :
    (dict fs).Composes := by
  refine ⟨fun b i fuel more hs ns as hfuel => ?_⟩
  rw [tokens, List.length_cons] at hfuel
  obtain ⟨fuel, rfl⟩ : ∃ n, fuel = n + 1 := ⟨fuel - 1, by omega⟩
  obtain ⟨pairs, ns₁, hrun, hadds, hforms⟩ := hfs.run true fuel more hs
    (ns.push ⟨.map, .mapping []⟩) as (by omega)
  have hself : ns₁[ns.size]? = some ⟨.map, .mapping []⟩ :=
    hadds.keepsFrom 0 (Nat.zero_le _) Array.getElem?_push_size
  rw [Array.size_push] at hforms
  refine ⟨ns.size, ns₁.modify ns.size ({ · with content := .mapping pairs }), ?_, hadds.modify _,
    .dict (Nat.le_refl _) (getElem?_modify_self hself) (hforms.mono (keepsFrom_modify _ _))⟩
  rw [tokens, List.cons_append, Compose.run_node_flowMapping, run_bind_of_ok hrun]
  rfl

mutual

/-- The tokens of a tree are read as nodes that form it. -/
theorem composes : ∀ t : Tree, t.Composes
  | leaf a => composes_leaf a
  | list ts => (composesItems ts).list
  | dict fs => (composesPairs fs).dict

theorem composesItems : ∀ ts : List Tree, ComposesItems ts
  | [] => composesItems_nil
  | t :: ts => (composes t).items_cons (composesItems ts)

theorem composesPairs : ∀ fs : List (Key × Tree), ComposesPairs fs
  | [] => composesPairs_nil
  | (_, t) :: fs => (composes t).pairs_cons (composesPairs fs)

end

/-- The only document in the tokens of a tree has nodes that form the tree. -/
theorem exists_ofTokens (t : Tree) :
    ∃ j ns, Document.ofTokens t.tokens = .ok ⟨ns, some j⟩ ∧ Forms ns 0 j t := by
  obtain ⟨tok, toks, htoks, hopens⟩ := exists_tokens_eq t
  obtain ⟨j, ns, hrun, -, hforms⟩ := (composes t).run true false
    (4 * t.tokens.length + 8) [] [("!", "!"), ("!!", Tag.home)] #[] [] (by omega)
  refine ⟨j, ns, ?_, hforms⟩
  rw [List.append_nil, htoks] at hrun
  rw [Document.ofTokens, htoks, Compose.run_root hopens hrun]
  rfl

end Tree

end Dotpath

import Dotpath.Proofs.Document.JsonNodes
import Dotpath.Proofs.Document.Reading

/-!
# The values of a JSON text

The nodes of a JSON text are made into values: each text, word and number into a scalar, and each
collection into a node of the heap that is empty at first and filled later.  While values are made,
every collection waits to be filled or holds what belongs to it (`Build.Ready`), and as each node is
made only once, there is fuel for all of them.  In the end everything is filled
(`Build.exists_run_value`).
-/

namespace Dotpath

namespace Yaml

namespace Build

variable {s s' : Building} {i : NodeId} {n : Node} {tag : Tag} {text : String} {x : Scalar}
  {pairs : List (NodeId × NodeId)} {v : Value} {fuel : Nat}

/-! ## Looking up nodes -/

theorem run_get : (get : Build Building).run s = .ok (s, s) := rfl

theorem run_node (hn : s.nodes[i]? = some n) : (node i).run s = .ok (n, s) := by
  change Except.ok ((s.nodes[i]?).getD default, s) = _
  rw [hn]
  rfl

theorem run_tagOf (hn : s.nodes[i]? = some n) : (tagOf i).run s = .ok (n.tag, s) := by
  rw [tagOf, run_bind_of_ok (run_node hn)]
  rfl

theorem run_pairsOf (hn : s.nodes[i]? = some ⟨tag, .mapping pairs⟩) :
    (pairsOf i).run s = .ok (pairs, s) := by
  rw [pairsOf, run_bind_of_ok (run_node hn)]
  rfl

/-! ## Mappings without merges -/

/-- Whether a node is the text of a key. -/
def IsName (ns : Array Node) (i : NodeId) (name : String) : Prop :=
  ns[i]? = some ⟨.str, .scalar name⟩

theorem run_splitMerge (hpairs : ∀ p ∈ pairs, ∃ name, IsName s.nodes p.1 name) :
    (splitMerge pairs).run s = .ok ((pairs, none, []), s) := by
  induction pairs with
  | nil => rfl
  | cons p pairs ih =>
    obtain ⟨⟨name, hname⟩, hpairs⟩ := List.forall_mem_cons.1 hpairs
    have hmerges : (merges p).run s = .ok (false, s) := by
      rw [merges, run_bind_of_ok (run_tagOf hname)]
      rfl
    rw [splitMerge, run_bind_of_ok hmerges, if_neg Bool.false_ne_true, run_bind_of_ok (ih hpairs)]
    rfl

theorem run_plainKey {name : String} (hname : IsName s.nodes i name) :
    (plainKey i).run s = .ok ((), s) := by
  rw [plainKey, run_bind_of_ok (run_tagOf hname)]
  rfl

theorem run_forIn_plainKey (hpairs : ∀ p ∈ pairs, ∃ name, IsName s.nodes p.1 name) :
    (forIn pairs PUnit.unit fun (p : NodeId × NodeId) _ => do
      plainKey p.1
      return ForInStep.yield PUnit.unit).run s = .ok (PUnit.unit, s) := by
  induction pairs with
  | nil => rfl
  | cons p pairs ih =>
    obtain ⟨⟨name, hname⟩, hpairs⟩ := List.forall_mem_cons.1 hpairs
    have hstep : (do
        plainKey p.1
        return ForInStep.yield PUnit.unit : Build (ForInStep PUnit)).run s =
          .ok (.yield PUnit.unit, s) := by
      rw [run_bind_of_ok (run_plainKey hname)]
      rfl
    rw [List.forIn_cons, run_bind_of_ok hstep]
    exact ih hpairs

theorem modify_eq_self {ns : Array Node} {f : Node → Node} (hn : ns[i]? = some n) (hf : f n = n) :
    ns.modify i f = ns := by
  refine Array.ext_getElem? fun j => ?_
  rw [Array.getElem?_modify]
  split
  · next h =>
    subst h
    rw [hn, Option.map_some, hf]
  · rfl

/-- A mapping with nothing but texts for keys has the pairs that it shows. -/
theorem run_flattened (hn : s.nodes[i]? = some ⟨tag, .mapping pairs⟩)
    (hpairs : ∀ p ∈ pairs, ∃ name, IsName s.nodes p.1 name) :
    (flattened i (fuel + 2)).run s = .ok (pairs, s) := by
  have hset : (setPairs i ([] ++ pairs)).run s = .ok ((), s) := by
    change Except.ok ((), { s with nodes := s.nodes.modify i _ }) = _
    rw [modify_eq_self hn rfl]
  have hflatten : (flatten i [] (fuel + 1)).run s = .ok ((), s) := by
    rw [flatten, run_bind_of_ok (run_pairsOf hn), run_bind_of_ok (run_splitMerge hpairs)]
    dsimp only
    rw [run_bind_of_ok (run_forIn_plainKey hpairs), hset]
  rw [flattened, run_bind_of_ok hflatten, run_pairsOf hn]

theorem exists_run_mergeFuel (s : Building) : ∃ fuel, mergeFuel.run s = .ok (fuel + 2, s) := by
  obtain ⟨size, hsize, hrun⟩ : ∃ size, 2 ≤ size ∧ mergeFuel.run s = .ok (size * size, s) := by
    refine ⟨_, ?_, rfl⟩
    rw [← Array.foldl_toList]
    refine List.foldlRecOn s.nodes.toList _ (Nat.le_refl 2) fun n hn x _ => ?_
    obtain ⟨tag, content⟩ := x
    cases content <;>
      · dsimp only
        omega
  obtain ⟨fuel, hfuel⟩ : ∃ fuel, size * size = fuel + 2 :=
    ⟨size * size - 2, by have := Nat.mul_le_mul hsize hsize; omega⟩
  exact ⟨fuel, hfuel ▸ hrun⟩

/-! ## Making values -/

theorem isSome_scalar?_empty (hx : (tag.scalar? text).isSome = true) :
    (tag.scalar? "").isSome = true := by
  cases tag <;> first | rfl | cases hx

theorem run_make_scalar (hn : s.nodes[i]? = some ⟨tag, .scalar text⟩)
    (hx : tag.scalar? text = some (.ok x)) : (make i).run s = .ok (.scalar x, s) := by
  have htext : (textOf i (s.nodes.size + 1)).run s = .ok (text, s) := by
    rw [textOf, run_bind_of_ok (run_node hn)]
    rfl
  obtain ⟨y, hy⟩ := Option.isSome_iff_exists.1 (isSome_scalar?_empty (by rw [hx]; rfl))
  rw [make, run_bind_of_ok (run_node hn)]
  dsimp only
  split
  case h_6 =>
    rw [hy]
    dsimp only
    rw [run_bind_of_ok run_get, run_bind_of_ok htext, hx]
    rfl
  all_goals cases hx

theorem run_make_seq {c : Content} (hn : s.nodes[i]? = some ⟨.seq, c⟩) :
    (make i).run s = .ok (.ref s.heap.nodes.size, { s with
      heap := (s.heap.alloc (.list [])).1
      waiting := s.waiting ++ [(i, s.heap.nodes.size)] }) := by
  rw [make, run_bind_of_ok (run_node hn)]
  rfl

theorem run_make_map {c : Content} (hn : s.nodes[i]? = some ⟨.map, c⟩) :
    (make i).run s = .ok (.ref s.heap.nodes.size, { s with
      heap := (s.heap.alloc (.dict .plain [])).1
      waiting := s.waiting ++ [(i, s.heap.nodes.size)] }) := by
  rw [make, run_bind_of_ok (run_node hn)]
  rfl

theorem run_value_made (hv : s.made.lookup i = some v) : (value i).run s = .ok (v, s) := by
  rw [value, run_bind_of_ok run_get, hv]
  rfl

theorem run_value_new (hnew : s.made.lookup i = none) (hmake : (make i).run s = .ok (v, s')) :
    (value i).run s = .ok (v, { s' with made := (i, v) :: s'.made }) := by
  rw [value, run_bind_of_ok run_get, hnew]
  dsimp only
  rw [run_bind_of_ok hmake]
  rfl

/-! ## Nodes to be made into values -/

/-- Whether a node can be made into a value, with everything under it. -/
inductive Formed (ns : Array Node) : NodeId → Prop
  | scalar {i : NodeId} {tag : Tag} {text : String} {x : Scalar}
      (hn : ns[i]? = some ⟨tag, .scalar text⟩) (hx : tag.scalar? text = some (.ok x)) : Formed ns i
  | list {i : NodeId} {items : List NodeId} (hn : ns[i]? = some ⟨.seq, .sequence items⟩)
      (hitems : ∀ j ∈ items, Formed ns j) : Formed ns i
  | dict {i : NodeId} {pairs : List (NodeId × NodeId)}
      (hn : ns[i]? = some ⟨.map, .mapping pairs⟩)
      (hkeys : ∀ p ∈ pairs, ∃ name, IsName ns p.1 name) (hvalues : ∀ p ∈ pairs, Formed ns p.2) :
    Formed ns i

variable {ns : Array Node}

theorem IsName.formed {name : String} (hname : IsName ns i name) : Formed ns i := .scalar hname rfl

theorem Formed.lt_size (hi : Formed ns i) : i < ns.size := by
  cases hi with
  | scalar hn | list hn | dict hn => exact (Array.getElem?_eq_some_iff.1 hn).1

/-- Whether a value has been made of a node. -/
def Made (s : Building) (i : NodeId) (v : Value) : Prop := s.made.lookup i = some v

theorem Made.unique {w : Value} (hv : Made s i v) (hw : Made s i w) : v = w :=
  Option.some.inj (hv.symm.trans hw)

/-- Whether a pair has the key and the value of a pair of nodes. -/
structure IsPair (ns : Array Node) (s : Building) (p : NodeId × NodeId) (e : Key × Value) : Prop where
  source : e.1.source = some p.1
  key : ∃ name, IsName ns p.1 name ∧ e.1.value = .scalar (.text name)
  value : Made s p.2 e.2

/-- Whether the value of a node holds all that belongs to it. -/
inductive Holds (ns : Array Node) (s : Building) : NodeId → Value → Prop
  | scalar {i : NodeId} {tag : Tag} {text : String} {x : Scalar}
      (hn : ns[i]? = some ⟨tag, .scalar text⟩) (hx : tag.scalar? text = some (.ok x)) :
    Holds ns s i (.scalar x)
  | list {i : NodeId} {items : List NodeId} {a : Address} {vs : List Value}
      (hn : ns[i]? = some ⟨.seq, .sequence items⟩) (ha : s.heap.get? a = some (.list vs))
      (hitems : List.Forall₂ (Made s) items vs) : Holds ns s i (.ref a)
  | dict {i : NodeId} {pairs : List (NodeId × NodeId)} {a : Address} {es : List (Key × Value)}
      (hn : ns[i]? = some ⟨.map, .mapping pairs⟩)
      (ha : s.heap.get? a = some (.dict .plain (Key.entries es)))
      (hpairs : List.Forall₂ (IsPair ns s) pairs es) : Holds ns s i (.ref a)

/-- Whether a node has been made into a collection, and can be filled. -/
structure Waits (ns : Array Node) (s : Building) (e : NodeId × Address) : Prop where
  made : Made s e.1 (.ref e.2)
  formed : Formed ns e.1
  collection : ∀ tag text, ns[e.1]? ≠ some ⟨tag, .scalar text⟩

/-- Whether all values made so far hold what belongs to them, except for collections that are being
filled or wait for it. -/
structure Ready (ns : Array Node) (busy : List (NodeId × Address)) (s : Building) : Prop where
  nodes : s.nodes = ns
  nodup : (s.made.map Prod.fst).Nodup
  lt_size : ∀ e ∈ s.made, e.1 < ns.size
  lt_heap : ∀ {i a}, Made s i (.ref a) → a < s.heap.nodes.size
  apart : ∀ {i j a}, Made s i (.ref a) → Made s j (.ref a) → i = j
  waits : ∀ e ∈ busy ++ s.waiting, Waits ns s e
  holds : ∀ {i v}, Made s i v → Holds ns s i v ∨ ∃ a, v = .ref a ∧ (i, a) ∈ busy ++ s.waiting

/-- Whether values have been made, and no more collections wait than there are new values. -/
structure Grows (s s' : Building) : Prop where
  made : ∀ {i v}, Made s i v → Made s' i v
  heap : s.heap.Extends s'.heap
  count : s'.waiting.length + s.made.length ≤ s.waiting.length + s'.made.length

theorem Grows.refl (s : Building) : Grows s s := ⟨id, .refl _, Nat.le_refl _⟩

theorem Grows.trans {s₁ s₂ s₃ : Building} (h₁ : Grows s₁ s₂) (h₂ : Grows s₂ s₃) : Grows s₁ s₃ where
  made h := h₂.made (h₁.made h)
  heap := h₁.heap.trans h₂.heap
  count := by
    have := h₁.count
    have := h₂.count
    omega

theorem IsPair.grow {p : NodeId × NodeId} {e : Key × Value} (hp : IsPair ns s p e)
    (hs : Grows s s') : IsPair ns s' p e :=
  ⟨hp.source, hp.key, hs.made hp.value⟩

/-- A value holds what belongs to it as long as its own node of the heap is the same. -/
theorem Holds.transfer (hv : Holds ns s i v) (hmade : ∀ {j w}, Made s j w → Made s' j w)
    (hheap : ∀ {a c}, v = .ref a → s.heap.get? a = some c → s'.heap.get? a = some c) :
    Holds ns s' i v := by
  cases hv with
  | scalar hn hx => exact .scalar hn hx
  | list hn ha hitems => exact .list hn (hheap rfl ha) (hitems.imp fun _ _ => hmade)
  | dict hn ha hpairs =>
    exact .dict hn (hheap rfl ha) (hpairs.imp fun _ _ h => ⟨h.source, h.key, hmade h.value⟩)

theorem Waits.grow {e : NodeId × Address} (he : Waits ns s e) (hs : Grows s s') : Waits ns s' e :=
  ⟨hs.made he.made, he.formed, he.collection⟩

variable {busy : List (NodeId × Address)}

/-- A node of which no value has been made is none of those that have one. -/
theorem not_mem_of_lookup (hnew : s.made.lookup i = none) : i ∉ s.made.map Prod.fst := by
  rw [List.lookup_eq_none_iff] at hnew
  rintro hi
  obtain ⟨e, he, rfl⟩ := List.mem_map.1 hi
  simpa using hnew e he

/-- The state with a new value of a node, which is perhaps a collection on the heap that waits. -/
def withValue (s : Building) (i : NodeId) (v : Value) (heap : Heap)
    (more : List (NodeId × Address)) : Building :=
  { s with heap, waiting := s.waiting ++ more, made := (i, v) :: s.made }

section

variable {w : Value} {j : NodeId} {heap : Heap} {more : List (NodeId × Address)}

theorem made_withValue_self : Made (withValue s i v heap more) i v := by
  rw [Made, withValue, List.lookup_cons, beq_self_eq_true]

theorem made_withValue_ne (hne : j ≠ i) : Made (withValue s i v heap more) j w ↔ Made s j w := by
  rw [Made, withValue, List.lookup_cons, beq_false_of_ne hne, Made]

theorem grows_withValue (hnew : s.made.lookup i = none) (hheap : s.heap.Extends heap)
    (hmore : more.length ≤ 1) : Grows s (withValue s i v heap more) where
  made {j w} hj := by
    refine (made_withValue_ne ?_).2 hj
    rintro rfl
    rw [Made, hnew] at hj
    cases hj
  heap := hheap
  count := by
    simp only [withValue, List.length_append, List.length_cons]
    omega

/-- A new value of a node is complete, or it is a new collection that waits. -/
theorem Ready.withValue (hs : Ready ns busy s) (hi : Formed ns i) (hnew : s.made.lookup i = none)
    (hgrows : Grows s (withValue s i v heap more))
    (href : ∀ a, v = .ref a → s.heap.nodes.size ≤ a ∧ a < heap.nodes.size)
    (hmore : ∀ e ∈ more, Waits ns (Build.withValue s i v heap more) e)
    (hholds : Holds ns (Build.withValue s i v heap more) i v ∨ ∃ a, v = .ref a ∧ (i, a) ∈ more) :
    Ready ns busy (Build.withValue s i v heap more) where
  nodes := hs.nodes
  nodup := List.nodup_cons.2 ⟨not_mem_of_lookup hnew, hs.nodup⟩
  lt_size := List.forall_mem_cons.2 ⟨hi.lt_size, hs.lt_size⟩
  lt_heap {j a} hj := by
    by_cases hji : j = i
    · subst hji
      exact (href a (hj.unique made_withValue_self).symm).2
    · exact (hs.lt_heap ((made_withValue_ne hji).1 hj)).trans_le hgrows.heap.size_le
  apart {j k a} hj hk := by
    have hold {j k : NodeId} (hj : Made (Build.withValue s i v heap more) j (.ref a))
        (hk : Made (Build.withValue s i v heap more) k (.ref a)) (hji : j = i) : k = i := by
      subst hji
      by_contra hkj
      have hle := (href a (hj.unique made_withValue_self).symm).1
      exact Nat.not_lt.2 hle (hs.lt_heap ((made_withValue_ne hkj).1 hk))
    by_cases hji : j = i
    · rw [hji, hold hj hk hji]
    · by_cases hki : k = i
      · exact absurd (hold hk hj hki) hji
      · exact hs.apart ((made_withValue_ne hji).1 hj) ((made_withValue_ne hki).1 hk)
  waits e he := by
    rw [Build.withValue, ← List.append_assoc, List.mem_append] at he
    rcases he with he | he
    · exact (hs.waits e he).grow hgrows
    · exact hmore e he
  holds {j w} hj := by
    have hmem {e : NodeId × Address} (he : e ∈ busy ++ s.waiting ∨ e ∈ more) :
        e ∈ busy ++ (s.waiting ++ more) := by
      rwa [← List.append_assoc, List.mem_append]
    by_cases hji : j = i
    · subst hji
      rw [hj.unique made_withValue_self]
      exact hholds.imp_right fun ⟨a, ha, hmore⟩ => ⟨a, ha, hmem (.inr hmore)⟩
    · exact (hs.holds ((made_withValue_ne hji).1 hj)).imp
        (·.transfer hgrows.made fun _ hc => hgrows.heap hc)
        fun ⟨a, ha, hwaits⟩ => ⟨a, ha, hmem (.inl hwaits)⟩

end

/-! ## Steps of making values -/

variable {α β : Type}

/-- Whether a step succeeds, and keeps all ready for what follows. -/
def Builds (ns : Array Node) (busy : List (NodeId × Address)) (s : Building) (m : Build α)
    (P : Building → α → Prop) : Prop :=
  ∃ a s', m.run s = .ok (a, s') ∧ Ready ns busy s' ∧ Grows s s' ∧ P s' a

namespace Builds

variable {m : Build α} {f : α → Build β} {P : Building → α → Prop} {Q : Building → β → Prop} {a : α}

theorem of_run (hs : Ready ns busy s) (hm : m.run s = .ok (a, s)) (hP : P s a) :
    Builds ns busy s m P :=
  ⟨a, s, hm, hs, .refl s, hP⟩

theorem bind (hm : Builds ns busy s m P)
    (hf : ∀ a s', Ready ns busy s' → Grows s s' → P s' a → Builds ns busy s' (f a) Q) :
    Builds ns busy s (m >>= f) Q := by
  obtain ⟨a, s₁, hrun, hs₁, hgrows, ha⟩ := hm
  obtain ⟨b, s₂, hrun', hs₂, hgrows', hb⟩ := hf a s₁ hs₁ hgrows ha
  exact ⟨b, s₂, by rw [run_bind_of_ok hrun, hrun'], hs₂, hgrows.trans hgrows', hb⟩

/-- A first step that changes nothing. -/
theorem after (hm : m.run s = .ok (a, s)) (hf : Builds ns busy s (f a) Q) :
    Builds ns busy s (m >>= f) Q := by
  obtain ⟨b, s₁, hrun, h⟩ := hf
  exact ⟨b, s₁, by rw [run_bind_of_ok hm, hrun], h⟩

theorem mapM {R : Building → α → β → Prop} {as : List α}
    (hR : ∀ {s s' a b}, R s a b → Grows s s' → R s' a b)
    (hf : ∀ a ∈ as, ∀ s, Ready ns busy s → Builds ns busy s (f a) fun s' b => R s' a b)
    (hs : Ready ns busy s) :
    Builds ns busy s (as.mapM f) fun s' bs => List.Forall₂ (R s') as bs := by
  induction as generalizing s with
  | nil => exact .of_run hs rfl .nil
  | cons a as ih =>
    obtain ⟨hfirst, hrest⟩ := List.forall_mem_cons.1 hf
    rw [List.mapM_cons]
    refine (hfirst s hs).bind fun b s₁ hs₁ _ hb => (ih hrest hs₁).bind fun bs s₂ hs₂ hgrows hbs => ?_
    exact .of_run hs₂ rfl (.cons (hR hb hgrows) hbs)

end Builds

/-- A collection is put on the heap empty, and waits. -/
theorem builds_value_of_alloc {c : Dotpath.Node} (hs : Ready ns busy s) (hi : Formed ns i)
    (hnew : s.made.lookup i = none) (hcollection : ∀ tag text, ns[i]? ≠ some ⟨tag, .scalar text⟩)
    (hmake : (make i).run s = .ok (.ref s.heap.nodes.size, { s with
      heap := (s.heap.alloc c).1
      waiting := s.waiting ++ [(i, s.heap.nodes.size)] })) :
    Builds ns busy s (value i) fun s' v => Made s' i v := by
  have hgrows : Grows s (withValue s i (.ref s.heap.nodes.size) (s.heap.alloc c).1
      [(i, s.heap.nodes.size)]) :=
    grows_withValue hnew (Heap.extends_alloc s.heap c) (Nat.le_refl 1)
  refine ⟨_, withValue s i (.ref s.heap.nodes.size) (s.heap.alloc c).1
    [(i, s.heap.nodes.size)], run_value_new hnew hmake, ?_, hgrows, made_withValue_self⟩
  refine hs.withValue hi hnew hgrows ?_ ?_ (.inr ⟨_, rfl, List.mem_singleton_self _⟩)
  · rintro a ⟨⟩
    exact ⟨Nat.le_refl _, Heap.size_alloc s.heap c ▸ Nat.lt_succ_self _⟩
  · exact List.forall_mem_singleton.2 ⟨made_withValue_self, hi, hcollection⟩

theorem builds_value (hs : Ready ns busy s) (hi : Formed ns i) :
    Builds ns busy s (value i) fun s' v => Made s' i v := by
  cases hnew : s.made.lookup i with
  | some v => exact .of_run hs (run_value_made hnew) hnew
  | none =>
    have hnode {n : Node} (hn : ns[i]? = some n) : s.nodes[i]? = some n := hs.nodes ▸ hn
    have hcollection {n : Node} (hn : ns[i]? = some n) (hc : ∀ text, n.content ≠ .scalar text) :
        ∀ tag text, ns[i]? ≠ some ⟨tag, .scalar text⟩ := fun tag text h =>
      hc text (congrArg Node.content (Option.some.inj (hn.symm.trans h)))
    cases hi with
    | @scalar _ _ _ x hn hx =>
      have hgrows : Grows s (withValue s i (.scalar x) s.heap []) :=
        grows_withValue hnew (.refl s.heap) (Nat.zero_le 1)
      have hrun := run_value_new hnew (run_make_scalar (hnode hn) hx)
      refine ⟨_, withValue s i (.scalar x) s.heap [], ?_, ?_, hgrows, made_withValue_self⟩
      · rw [hrun, withValue, List.append_nil]
      · exact hs.withValue (.scalar hn hx) hnew hgrows nofun nofun (.inl (.scalar hn hx))
    | list hn hitems =>
      exact builds_value_of_alloc hs (.list hn hitems) hnew (hcollection hn nofun)
        (run_make_seq (hnode hn))
    | dict hn hkeys hvalues =>
      exact builds_value_of_alloc hs (.dict hn hkeys hvalues) hnew (hcollection hn nofun)
        (run_make_map (hnode hn))

theorem builds_values {items : List NodeId} (hs : Ready ns busy s) (hitems : ∀ j ∈ items, Formed ns j) :
    Builds ns busy s (items.mapM value) fun s' vs => List.Forall₂ (Made s') items vs :=
  .mapM (fun h hgrows => hgrows.made h) (fun j hj _ hs => builds_value hs (hitems j hj)) hs

/-- The value of a key is its text. -/
theorem Ready.value_of_isName {name : String} (hs : Ready ns busy s) (hname : IsName ns i name)
    (hv : Made s i v) : v = .scalar (.text name) := by
  rcases hs.holds hv with hholds | ⟨a, rfl, hwaits⟩
  · cases hholds with
    | scalar hn hx =>
      cases hn.symm.trans hname
      cases hx
      rfl
    | list hn | dict hn => cases hn.symm.trans hname
  · exact absurd hname ((hs.waits _ hwaits).collection _ _)

theorem run_sourceOf {name : String} (hname : IsName s.nodes i name) :
    (sourceOf i).run s = .ok (some i, s) := by
  rw [sourceOf, run_bind_of_ok (run_node hname)]
  rfl

theorem builds_entries (hs : Ready ns busy s) (hn : ns[i]? = some ⟨.map, .mapping pairs⟩)
    (hkeys : ∀ p ∈ pairs, ∃ name, IsName ns p.1 name) (hvalues : ∀ p ∈ pairs, Formed ns p.2) :
    Builds ns busy s (entries i) fun s' es =>
      ∃ ks, es = Key.entries ks ∧ List.Forall₂ (IsPair ns s') pairs ks := by
  obtain ⟨fuel, hfuel⟩ := exists_run_mergeFuel s
  have hnode : s.nodes[i]? = some ⟨.map, .mapping pairs⟩ := hs.nodes ▸ hn
  have hflattened : (flattened i (fuel + 2)).run s = .ok (pairs, s) :=
    run_flattened hnode (hs.nodes ▸ hkeys)
  rw [entries]
  refine .after (run_node hnode) (.after hfuel (.after hflattened ?_))
  refine .bind (.mapM (R := IsPair ns) (fun h hgrows => h.grow hgrows) (fun p hp s hs => ?_) hs)
    fun ks s' hs' _ hks => .of_run hs' rfl ⟨ks, rfl, hks⟩
  obtain ⟨name, hname⟩ := hkeys p hp
  refine (builds_value hs hname.formed).bind fun key s₁ hs₁ _ hkey => ?_
  obtain rfl := hs₁.value_of_isName hname hkey
  refine .after (run_sourceOf (hs₁.nodes ▸ hname)) ?_
  exact (builds_value hs₁ (hvalues p hp)).bind fun v s₂ hs₂ _ hv =>
    .of_run hs₂ rfl ⟨rfl, ⟨name, hname, rfl⟩, hv⟩

/-! ## Filling collections -/

/-- Whether a node of the heap holds all that belongs to a collection. -/
inductive Fills (ns : Array Node) (s : Building) (i : NodeId) : Dotpath.Node → Prop
  | list {items : List NodeId} {vs : List Value} (hn : ns[i]? = some ⟨.seq, .sequence items⟩)
      (hitems : List.Forall₂ (Made s) items vs) : Fills ns s i (.list vs)
  | dict {pairs : List (NodeId × NodeId)} {es : List (Key × Value)}
      (hn : ns[i]? = some ⟨.map, .mapping pairs⟩) (hpairs : List.Forall₂ (IsPair ns s) pairs es) :
    Fills ns s i (.dict .plain (Key.entries es))

theorem builds_contents (hs : Ready ns busy s) (hi : Formed ns i)
    (hcollection : ∀ tag text, ns[i]? ≠ some ⟨tag, .scalar text⟩) :
    Builds ns busy s (contents i) fun s' c => Fills ns s' i c := by
  rw [contents]
  cases hi with
  | scalar hn => exact absurd hn (hcollection _ _)
  | @list _ items hn hitems =>
    have hnode : s.nodes[i]? = some ⟨.seq, .sequence items⟩ := hs.nodes ▸ hn
    have hvalues : Builds ns busy s (Build.items value i) fun s' vs =>
        List.Forall₂ (Made s') items vs := by
      rw [Build.items]
      exact .after (run_node hnode) (builds_values hs hitems)
    refine .after (run_tagOf hnode) (hvalues.bind fun vs s' hs' _ hvs => ?_)
    exact .of_run hs' rfl (.list hn hvs)
  | @dict _ pairs hn hkeys hvalues =>
    have hnode : s.nodes[i]? = some ⟨.map, .mapping pairs⟩ := hs.nodes ▸ hn
    refine .after (run_tagOf hnode) ((builds_entries hs hn hkeys hvalues).bind ?_)
    rintro _ s' hs' _ ⟨ks, rfl, hks⟩
    exact .of_run hs' rfl (.dict hn hks)

/-- A heap node that holds what belongs to a node is what the value of the node refers to. -/
theorem Fills.holds {c : Dotpath.Node} {a : Address} (hc : Fills ns s i c) {s' : Building}
    (hmade : s'.made = s.made) (ha : s'.heap.get? a = some c) : Holds ns s' i (.ref a) := by
  have hgrow {j : NodeId} {w : Value} (h : Made s j w) : Made s' j w := by rwa [Made, hmade]
  cases hc with
  | list hn hitems => exact .list hn ha (hitems.imp fun _ _ => hgrow)
  | dict hn hpairs =>
    exact .dict hn ha (hpairs.imp fun _ _ h => ⟨h.source, h.key, hgrow h.value⟩)

/-- The state with a node of the heap filled. -/
def withContents (s : Building) (a : Address) (c : Dotpath.Node) : Building :=
  { s with heap := s.heap.set a c }

/-- The collection that was being filled is complete. -/
theorem Ready.withContents {a : Address} {c : Dotpath.Node} (hs : Ready ns [(i, a)] s)
    (hc : Fills ns s i c) : Ready ns [] (Build.withContents s a c) := by
  have hself := (hs.waits (i, a) List.mem_cons_self).made
  have hsize : (Build.withContents s a c).heap.nodes.size = s.heap.nodes.size :=
    Array.size_setIfInBounds
  have hget : (Build.withContents s a c).heap.get? a = some c := by
    obtain ⟨old, hold⟩ : ∃ old, s.heap.get? a = some old :=
      ⟨_, Array.getElem?_eq_getElem (hs.lt_heap hself)⟩
    exact Heap.get?_set_self c hold
  refine ⟨hs.nodes, hs.nodup, hs.lt_size, fun h => ?_, hs.apart, fun e he => ?_, fun {j v} hj => ?_⟩
  · rw [hsize]
    exact hs.lt_heap h
  · have hw := hs.waits e (List.mem_cons_of_mem _ he)
    exact ⟨hw.made, hw.formed, hw.collection⟩
  · by_cases hji : j = i
    · subst hji
      rw [hself.unique hj |>.symm]
      exact .inl (hc.holds rfl hget)
    · rcases hs.holds hj with hholds | ⟨b, rfl, hb⟩
      · refine .inl (hholds.transfer id fun {b d} hb hd => ?_)
        have hne : a ≠ b := by
          rintro rfl
          exact hji (hs.apart (hb ▸ hj) hself)
        exact (Heap.get?_set_ne c hne).trans hd
      · refine .inr ⟨b, rfl, (List.mem_cons.1 hb).resolve_left fun heq => hji ?_⟩
        exact congrArg Prod.fst heq

theorem Ready.length_le (hs : Ready ns busy s) : s.made.length ≤ ns.size := by
  have hsub : s.made.map Prod.fst ⊆ List.range ns.size := fun j hj => by
    obtain ⟨e, he, rfl⟩ := List.mem_map.1 hj
    exact List.mem_range.2 (hs.lt_size e he)
  have hle := (hs.nodup.subperm hsub).length_le
  rwa [List.length_map, List.length_range] at hle

/-- The oldest collection that waits is being filled. -/
theorem Ready.pop {a : Address} {waiting : List (NodeId × Address)} (hs : Ready ns [] s)
    (hwaiting : s.waiting = (i, a) :: waiting) : Ready ns [(i, a)] { s with waiting } where
  nodes := hs.nodes
  nodup := hs.nodup
  lt_size := hs.lt_size
  lt_heap := hs.lt_heap
  apart := hs.apart
  waits e he := by
    have hw := hs.waits e (by rwa [hwaiting])
    exact ⟨hw.made, hw.formed, hw.collection⟩
  holds {j v} hj := by
    refine (hs.holds hj).imp (·.transfer id fun _ hc => hc) fun hpending => ?_
    rwa [hwaiting] at hpending

/-- With fuel for all nodes without a value and all collections that wait, nothing waits in the end. -/
theorem exists_run_fillAll (hs : Ready ns [] s)
    (hfuel : s.waiting.length + ns.size ≤ fuel + s.made.length) :
    ∃ s', (fillAll fuel).run s = .ok ((), s') ∧ Ready ns [] s' ∧ s'.waiting = [] ∧
      ∀ {i v}, Made s i v → Made s' i v := by
  induction fuel generalizing s with
  | zero =>
    have hnone : s.waiting.length = 0 := by
      have := hs.length_le
      omega
    exact ⟨s, rfl, hs, List.eq_nil_of_length_eq_zero hnone, id⟩
  | succ fuel ih =>
    cases hwaiting : s.waiting with
    | nil =>
      refine ⟨s, ?_, hs, hwaiting, id⟩
      rw [fillAll, run_bind_of_ok run_get, hwaiting]
      rfl
    | cons e waiting =>
      obtain ⟨i, a⟩ := e
      have hs₁ := hs.pop hwaiting
      have hwaits := hs₁.waits (i, a) List.mem_cons_self
      obtain ⟨c, s₂, hrun, hs₂, hgrows, hc⟩ := builds_contents hs₁ hwaits.formed hwaits.collection
      obtain ⟨s', hrun', hs', hdone, hmade⟩ := ih (hs₂.withContents hc) (by
        have hcount := hgrows.count
        dsimp only at hcount
        rw [hwaiting, List.length_cons] at hfuel
        change s₂.waiting.length + ns.size ≤ fuel + s₂.made.length
        omega)
      refine ⟨s', ?_, hs', hdone, fun h => hmade (hgrows.made h)⟩
      rw [fillAll, run_bind_of_ok run_get, hwaiting]
      change (do
        let n ← contents i
        modify fun s => { s with heap := s.heap.set a n }
        fillAll fuel : Build Unit).run { s with waiting } = _
      rw [run_bind_of_ok hrun]
      exact hrun'

/-- All nodes under a node are made into values that hold what belongs to them. -/
theorem exists_run_value (h : Heap) (hi : Formed ns i) : ∃ v s', (do
    let v ← value i
    fillAll (ns.size + 1)
    return v : Build Value).run { heap := h, nodes := ns } = .ok (v, s') ∧ Made s' i v ∧
      ∀ {j w}, Made s' j w → Holds ns s' j w := by
  have hstart : Ready ns [] { heap := h, nodes := ns } :=
    ⟨rfl, .nil, fun _ he => absurd he List.not_mem_nil, nofun, nofun,
      fun _ he => absurd he List.not_mem_nil, nofun⟩
  obtain ⟨v, s₁, hrun, hs₁, hgrows, hv⟩ := builds_value hstart hi
  have hfuel : s₁.waiting.length + ns.size ≤ ns.size + 1 + s₁.made.length := by
    have hcount := hgrows.count
    dsimp only [List.length_nil] at hcount
    omega
  obtain ⟨s₂, hrun', hs₂, hdone, hmade⟩ := exists_run_fillAll hs₁ hfuel
  refine ⟨v, s₂, ?_, hmade hv, fun hj => (hs₂.holds hj).resolve_right ?_⟩
  · rw [run_bind_of_ok hrun, run_bind_of_ok hrun']
    rfl
  · rintro ⟨a, -, ha⟩
    rw [hdone] at ha
    exact List.not_mem_nil ha

end Build

end Yaml

end Dotpath

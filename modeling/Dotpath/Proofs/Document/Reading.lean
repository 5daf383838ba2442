import Dotpath.Proofs.Document.Copy
import Dotpath.Proofs.Document.YamlNodes
import Dotpath.Proofs.Scalar.KeyText

/-!
# Reading into a heap

A document is read into new nodes of a heap: no node that was there before is changed
(`extends_of_read`), and each new node is a list, a set or a dictionary of scalars and new nodes
(`loads_of_read`).  Each step of making values keeps this true of the nodes made so far, and yields
values of this kind (`Yields`).
-/

namespace Dotpath

namespace Heap

theorem Extends.size_le {h h' : Heap} (hh : h.Extends h') : h.nodes.size ≤ h'.nodes.size := by
  refine Nat.le_of_not_lt fun hlt => ?_
  have hn : h.get? h'.nodes.size = some h.nodes[h'.nodes.size] := Array.getElem?_eq_getElem hlt
  exact Nat.lt_irrefl _ (lt_size_of_get? (hh hn))

/-- A heap with a new node has only this one and the old ones. -/
theorem get?_alloc {h : Heap} {a : Address} {m n : Node} (hm : (h.alloc n).1.get? a = some m) :
    h.get? a = some m ∨ m = n := by
  rw [alloc, get?, Array.getElem?_push] at hm
  split at hm
  · exact .inr (Option.some.inj hm).symm
  · exact .inl hm

/-- A heap with a node replaced has only the new one and the old ones. -/
theorem get?_set {h : Heap} {a b : Address} {m n : Node} (hm : (h.set a n).get? b = some m) :
    h.get? b = some m ∨ m = n := by
  by_cases hab : a = b
  · subst hab
    cases hold : h.get? a with
    | none =>
      have hsize : h.nodes.size ≤ a := Array.getElem?_eq_none_iff.1 hold
      simp [set, get?, Nat.not_lt.2 hsize] at hm
    | some old => exact .inr (Option.some.inj (hm.symm.trans (get?_set_self n hold)))
  · exact .inl ((get?_set_ne n hab).symm.trans hm)

end Heap

namespace Yaml

/-! ## Values of documents -/

/-- Whether a value is what a node of a document can become: a scalar, or a container between two
addresses. -/
inductive IsLoaded (lo hi : Nat) : Value → Prop
  | scalar {s : Scalar} (hs : s.isLoaded = true) : IsLoaded lo hi (.scalar s)
  | ref {a : Address} (hlo : lo ≤ a) (hhi : a < hi) : IsLoaded lo hi (.ref a)

/-- Whether a value can be an item of a list: the items of an ordered mapping are pairs. -/
inductive IsItem (lo hi : Nat) : Value → Prop
  | value {v : Value} (hv : IsLoaded lo hi v) : IsItem lo hi v
  | pair {k v : Value} (hk : IsLoaded lo hi k) (hv : IsLoaded lo hi v) : IsItem lo hi (.tuple [k, v])

/-- Whether a value can be a key. -/
def IsLoadedKey (k : Value) : Prop := ∃ s : Scalar, k = .scalar s ∧ s.isLoaded = true

/-- Whether a pair can be one of a mapping. -/
structure IsEntry (lo hi : Nat) (e : Key × Value) : Prop where
  key : IsLoadedKey e.1.value
  value : IsLoaded lo hi e.2

/-- Whether pairs can be those of a dictionary. -/
structure IsMapping (lo hi : Nat) (es : Entries) : Prop where
  distinct : es.Distinct
  keys : ∀ k ∈ es.keys, IsLoadedKey k
  values : ∀ v ∈ es.values, IsLoaded lo hi v

/-- Whether a node can be a collection of a document. -/
inductive IsCollection (lo hi : Nat) : Dotpath.Node → Prop
  | list {items : List Value} (hitems : ∀ v ∈ items, IsItem lo hi v) :
      IsCollection lo hi (.list items)
  | set {items : List Value} (hitems : ∀ v ∈ items, IsItem lo hi v) :
      IsCollection lo hi (.set items)
  | dict {es : Entries} (hes : IsMapping lo hi es) : IsCollection lo hi (.dict .plain es)

section Collections

variable {lo hi hi' : Nat} {v k : Value} {n : Dotpath.Node}

theorem IsLoaded.mono (hv : IsLoaded lo hi v) (hle : hi ≤ hi') : IsLoaded lo hi' v := by
  cases hv with
  | scalar hs => exact .scalar hs
  | ref hlo hhi => exact .ref hlo (Nat.lt_of_lt_of_le hhi hle)

theorem IsItem.mono (hv : IsItem lo hi v) (hle : hi ≤ hi') : IsItem lo hi' v := by
  cases hv with
  | value hv => exact .value (hv.mono hle)
  | pair hk hv => exact .pair (hk.mono hle) (hv.mono hle)

theorem IsEntry.mono {e : Key × Value} (he : IsEntry lo hi e) (hle : hi ≤ hi') :
    IsEntry lo hi' e :=
  ⟨he.key, he.value.mono hle⟩

theorem IsCollection.mono (hn : IsCollection lo hi n) (hle : hi ≤ hi') : IsCollection lo hi' n := by
  cases hn with
  | list hitems => exact .list fun v hv => (hitems v hv).mono hle
  | set hitems => exact .set fun v hv => (hitems v hv).mono hle
  | dict hes => exact .dict ⟨hes.distinct, hes.keys, fun v hv => (hes.values v hv).mono hle⟩

theorem IsLoadedKey.isItem (hk : IsLoadedKey k) : IsItem lo hi k := by
  obtain ⟨s, rfl, hs⟩ := hk
  exact .value (.scalar hs)

/-- An assignment replaces the value of a key, or adds a key that no other equals. -/
theorem Key.keys_put (es : List (Key × Value)) (k : Key) (v : Value) :
    (withoutSources (put es k v)).keys = (withoutSources es).keys ∨
      (withoutSources (put es k v)).keys = (withoutSources es).keys ++ [k.value] ∧
        ∀ l ∈ (withoutSources es).keys, l.equal k.value = false := by
  induction es with
  | nil => exact .inr ⟨rfl, fun l hl => absurd hl List.not_mem_nil⟩
  | cons e es ih =>
    rw [put]
    split
    · exact .inl rfl
    · next he =>
      rcases ih with ih | ⟨ih, hnew⟩
      · exact .inl (congrArg (e.1.value :: ·) ih)
      · rw [same, Bool.or_eq_true, not_or] at he
        exact .inr ⟨congrArg (e.1.value :: ·) ih,
          List.forall_mem_cons.2 ⟨Bool.eq_false_iff.2 he.2, hnew⟩⟩

theorem IsEntry.put {es : List (Key × Value)} {k : Key} (hes : ∀ e ∈ es, IsEntry lo hi e)
    (hk : IsEntry lo hi (k, v)) : ∀ e ∈ Key.put es k v, IsEntry lo hi e := by
  induction es with
  | nil => exact List.forall_mem_singleton.2 hk
  | cons e es ih =>
    obtain ⟨he, hes⟩ := List.forall_mem_cons.1 hes
    rw [Key.put]
    split
    · exact List.forall_mem_cons.2 ⟨⟨he.key, hk.value⟩, hes⟩
    · exact List.forall_mem_cons.2 ⟨he, ih hes⟩

/-- The keys of a dictionary made of pairs are different. -/
theorem Key.distinct_entries (pairs : List (Key × Value)) : (Key.entries pairs).Distinct := by
  suffices h : ∀ es : List (Key × Value), (withoutSources es).Distinct →
      (withoutSources (pairs.foldl (fun es e => put es e.1 e.2) es)).Distinct from h [] .nil
  induction pairs with
  | nil => exact fun _ hes => hes
  | cons e pairs ih => exact fun es hes => ih _ (hes.of_keys (keys_put es e.1 e.2))

/-- Pairs become those of a dictionary, where a later pair replaces the value of an earlier one. -/
theorem isMapping_entries {pairs : List (Key × Value)} (hpairs : ∀ e ∈ pairs, IsEntry lo hi e) :
    IsMapping lo hi (Key.entries pairs) := by
  have hfold : ∀ es : List (Key × Value), (∀ e ∈ es, IsEntry lo hi e) →
      ∀ e ∈ pairs.foldl (fun es e => Key.put es e.1 e.2) es, IsEntry lo hi e := by
    induction pairs with
    | nil => exact fun _ hes => hes
    | cons e pairs ih =>
      obtain ⟨he, hpairs⟩ := List.forall_mem_cons.1 hpairs
      exact fun es hes => ih hpairs _ (IsEntry.put hes he)
  have hentries := hfold [] fun e he => absurd he List.not_mem_nil
  refine ⟨Key.distinct_entries pairs, fun k hk => ?_, fun v hv => ?_⟩
  · obtain ⟨p, hp, rfl⟩ := List.mem_map.1 hk
    obtain ⟨e, he, rfl⟩ := List.mem_map.1 hp
    exact (hentries e he).key
  · obtain ⟨p, hp, rfl⟩ := List.mem_map.1 hv
    obtain ⟨e, he, rfl⟩ := List.mem_map.1 hp
    exact (hentries e he).value

theorem isLoaded_of_timeValue {text : String} {s : Scalar} (hs : timeValue text = .ok s) :
    s.isLoaded = true := by
  unfold timeValue at hs
  dsimp only at hs
  split at hs
  · cases hs
  split at hs
  · obtain ⟨d, -, hs⟩ := bind_eq_ok.1 hs
    cases hs
    rfl
  · split at hs
    case' h_3 => obtain ⟨_, -, hs⟩ := bind_eq_ok.1 hs
    all_goals
      obtain ⟨offset, -, hs⟩ := bind_eq_ok.1 hs
      obtain ⟨d, -, hs⟩ := bind_eq_ok.1 hs
      split at hs
      · cases hs
      split at hs
      · cases hs
      split at hs <;> cases hs
      rfl

/-- What a text means under a tag is a scalar of documents. -/
theorem isLoaded_of_scalar? {tag : Tag} {text : String} {s : Scalar}
    (hs : tag.scalar? text = some (.ok s)) : s.isLoaded = true := by
  cases tag with
  | null | str =>
    cases hs
    rfl
  | bool =>
    rw [Tag.scalar?] at hs
    split at hs <;> cases hs
    rfl
  | int | float =>
    obtain ⟨x, -, hs⟩ := bind_eq_ok.1 (Option.some.inj hs)
    cases hs
    rfl
  | binary =>
    rw [Tag.scalar?] at hs
    replace hs := Option.some.inj hs
    split at hs
    · cases hs
    · split at hs <;> cases hs
      rfl
  | timestamp => exact isLoaded_of_timeValue (Option.some.inj hs)
  | _ => cases hs

end Collections

/-- Whether a heap comes from another one by reading: the nodes are all there still, and the new ones
are collections of documents. -/
structure Loads (h h' : Heap) : Prop where
  ext : h.Extends h'
  new : ∀ {a n}, h.nodes.size ≤ a → h'.get? a = some n → IsCollection h.nodes.size h'.nodes.size n

namespace Build

/-! ## Steps of making values -/

/-- Whether a heap has grown by values of a document, and only new nodes are waiting to be filled. -/
structure IsGrown (h : Heap) (s : Building) : Prop where
  loads : Loads h s.heap
  waiting : ∀ e ∈ s.waiting, h.nodes.size ≤ e.2
  made : ∀ p ∈ s.made, IsLoaded h.nodes.size s.heap.nodes.size p.2

variable {α β : Type} {h : Heap} {n : Nat} {P : Nat → α → Prop} {Q : Nat → β → Prop}

/-- Whether a step from a heap of `n` nodes at least lets it grow, and its result has a property that
may depend on the size of the new heap. -/
structure Yields (h : Heap) (n : Nat) (P : Nat → α → Prop) (m : Build α) : Prop where
  result : ∀ {s a s'}, IsGrown h s → n ≤ s.heap.nodes.size → m.run s = .ok (a, s') →
    IsGrown h s' ∧ s.heap.nodes.size ≤ s'.heap.nodes.size ∧ P s'.heap.nodes.size a

namespace Yields

theorem pure {a : α} (ha : ∀ k, n ≤ k → P k a) : Yields h n P (Pure.pure a : Build α) := by
  refine ⟨fun hs hn hrun => ?_⟩
  cases hrun
  exact ⟨hs, Nat.le_refl _, ha _ hn⟩

theorem throw (f : Fault) : Yields h n P (MonadExcept.throw f : Build α) := by
  refine ⟨fun hs hn hrun => ?_⟩
  cases hrun

theorem bind {m : Build α} {f : α → Build β} (hm : Yields h n P m)
    (hf : ∀ k a, n ≤ k → P k a → Yields h k Q (f a)) : Yields h n Q (m >>= f) := by
  refine ⟨fun hs hn hrun => ?_⟩
  obtain ⟨⟨a, s₁⟩, hfirst, hrun⟩ := bind_eq_ok.1 hrun
  obtain ⟨hs₁, hle, ha⟩ := hm.result hs hn hfirst
  obtain ⟨hs', hle', hb⟩ := (hf _ a (Nat.le_trans hn hle) ha).result hs₁ (Nat.le_refl _) hrun
  exact ⟨hs', Nat.le_trans hle hle', hb⟩

/-- What goes on with the state may rely on it. -/
theorem bind_get {f : Building → Build β}
    (hf : ∀ s, IsGrown h s → n ≤ s.heap.nodes.size → Yields h s.heap.nodes.size Q (f s)) :
    Yields h n Q (MonadState.get >>= f) := by
  refine ⟨fun {s b s'} hs hn hrun => ?_⟩
  exact (hf s hs hn).result hs (Nat.le_refl _) hrun

theorem modify {f : Building → Building}
    (hf : ∀ s, IsGrown h s → n ≤ s.heap.nodes.size →
      IsGrown h (f s) ∧ s.heap.nodes.size ≤ (f s).heap.nodes.size) :
    Yields h n (fun _ _ => True) (modifyGet fun s => (PUnit.unit, f s) : Build PUnit) := by
  refine ⟨fun {s a s'} hs hn hrun => ?_⟩
  cases hrun
  exact ⟨(hf s hs hn).1, (hf s hs hn).2, trivial⟩

/-- A step that only looks at the nodes of the document, or changes them. -/
theorem bind_keeps {m : Build α} {f : α → Build β}
    (hm : ∀ I : Building → Prop, IgnoresNodes I → Keeps I m) (hf : ∀ a, Yields h n Q (f a)) :
    Yields h n Q (m >>= f) := by
  refine ⟨fun {s b s'} hs hn hrun => ?_⟩
  obtain ⟨⟨a, s₁⟩, hfirst, hrun⟩ := bind_eq_ok.1 hrun
  have hkeeps := hm (fun t => IsGrown h t ∧ s.heap.nodes.size ≤ t.heap.nodes.size)
    fun _ ht => ⟨⟨ht.1.loads, ht.1.waiting, ht.1.made⟩, ht.2⟩
  obtain ⟨hs₁, hle⟩ := hkeeps.kept ⟨hs, Nat.le_refl _⟩ hfirst
  obtain ⟨hs', hle', hb⟩ := (hf a).result hs₁ (Nat.le_trans hn hle) hrun
  exact ⟨hs', Nat.le_trans hle hle', hb⟩

theorem imp {P' : Nat → α → Prop} {m : Build α} (hm : Yields h n P m)
    (hP : ∀ k a, P k a → P' k a) : Yields h n P' m := by
  refine ⟨fun hs hn hrun => ?_⟩
  obtain ⟨hs', hle, ha⟩ := hm.result hs hn hrun
  exact ⟨hs', hle, hP _ _ ha⟩

theorem mapM {f : α → Build β} (hQ : ∀ {k k' b}, Q k b → k ≤ k' → Q k' b)
    (hf : ∀ a k, Yields h k Q (f a)) (as : List α) :
    Yields h n (fun k bs => ∀ b ∈ bs, Q k b) (as.mapM f) := by
  induction as generalizing n with
  | nil => exact .pure fun _ _ b hb => absurd hb List.not_mem_nil
  | cons a as ih =>
    rw [List.mapM_cons]
    refine .bind (hf a n) fun k b _ hb => .bind ih fun k' bs hk hbs => .pure fun k'' hk' => ?_
    exact List.forall_mem_cons.2 ⟨hQ hb (Nat.le_trans hk hk'), fun c hc => hQ (hbs c hc) hk'⟩

end Yields

theorem yields_fail : Yields h n P (fail : Build α) := .throw .document

/-! ## Values -/

theorem yields_allocEmpty (i : NodeId) {c : Dotpath.Node} (hc : ∀ lo hi, IsCollection lo hi c) :
    Yields h n (IsLoaded h.nodes.size) (allocEmpty i c) := by
  refine ⟨fun {s a s'} hs hn hrun => ?_⟩
  cases hrun
  have hsize : (s.heap.alloc c).1.nodes.size = s.heap.nodes.size + 1 := Heap.size_alloc s.heap c
  have hlo := hs.loads.ext.size_le
  refine ⟨⟨⟨hs.loads.ext.trans (Heap.extends_alloc s.heap c), fun ha hm => ?_⟩, fun e he => ?_,
    fun p hp => (hs.made p hp).mono (hsize ▸ Nat.le_succ _)⟩, hsize ▸ Nat.le_succ _,
    .ref hlo (hsize ▸ Nat.lt_succ_self _)⟩
  · rcases Heap.get?_alloc hm with hm | rfl
    · exact (hs.loads.new ha hm).mono (hsize ▸ Nat.le_succ _)
    · exact hc _ _
  · rcases List.mem_append.1 he with he | he
    · exact hs.waiting e he
    · rw [List.mem_singleton.1 he]
      exact hlo

theorem yields_make (i : NodeId) : Yields h n (IsLoaded h.nodes.size) (make i) := by
  have hempty : ∀ v ∈ ([] : List Value), ∀ lo hi, IsItem lo hi v :=
    fun v hv => absurd hv List.not_mem_nil
  refine .bind_keeps (fun _ _ => keeps_node i) fun c => ?_
  split
  case h_4 =>
    exact yields_allocEmpty i fun _ _ => .dict
      ⟨.nil, fun k hk => absurd hk List.not_mem_nil, fun v hv => absurd hv List.not_mem_nil⟩
  case h_5 => exact yields_allocEmpty i fun lo hi => .set fun v hv => hempty v hv lo hi
  case h_6 =>
    split
    · exact yields_fail
    · refine .bind_get fun s _ _ => .bind_keeps (fun _ _ => keeps_textOf i _) fun text => ?_
      split
      · exact .throw _
      · next hs _ => exact .pure fun _ _ => .scalar (isLoaded_of_scalar? hs)
      · exact .throw _
      · exact yields_fail
  all_goals exact yields_allocEmpty i fun lo hi => .list fun v hv => hempty v hv lo hi

theorem yields_value (i : NodeId) : Yields h n (IsLoaded h.nodes.size) (value i) := by
  refine .bind_get fun s hs _ => ?_
  cases hmade : s.made.lookup i with
  | some v =>
    have hv : IsLoaded h.nodes.size s.heap.nodes.size v := hs.made (i, v) (mem_of_lookup hmade)
    exact .pure fun _ hk => hv.mono hk
  | none =>
    refine .bind (yields_make i) fun k v _ hv => .bind (.modify fun t ht hk => ?_) fun k' _ hk _ =>
      .pure fun _ hk' => hv.mono (Nat.le_trans hk hk')
    refine ⟨⟨ht.loads, ht.waiting, List.forall_mem_cons.2 ⟨hv.mono hk, ht.made⟩⟩, Nat.le_refl _⟩

theorem yields_entries (i : NodeId) : Yields h n (IsMapping h.nodes.size) (entries i) := by
  refine .bind_keeps (fun _ _ => keeps_node i) fun c => ?_
  cases c.content with
  | scalar | sequence => exact yields_fail
  | mapping pairs =>
    refine .bind_keeps (fun _ _ => keeps_mergeFuel) fun fuel => ?_
    refine .bind_keeps (fun _ hI => (keeps_flatten hI fuel).2.1 i) fun pairs => ?_
    refine .bind (.mapM (Q := IsEntry h.nodes.size) .mono (fun p k => ?_) pairs) fun k es _ hes =>
      .pure fun k' hk => isMapping_entries fun e he => (hes e he).mono hk
    refine .bind (yields_value p.1) fun k key _ hkey => ?_
    cases hkey with
    | ref => exact yields_fail
    | scalar hs =>
      refine .bind_keeps (fun _ _ => keeps_sourceOf p.1) fun source => ?_
      exact .bind (yields_value p.2) fun k v _ hv => .pure fun _ hk => ⟨⟨_, rfl, hs⟩, hv.mono hk⟩

theorem yields_items {f : NodeId → Build Value}
    (hf : ∀ i k, Yields h k (IsItem h.nodes.size) (f i)) (i : NodeId) :
    Yields h n (fun k vs => ∀ v ∈ vs, IsItem h.nodes.size k v) (items f i) := by
  refine .bind_keeps (fun _ _ => keeps_node i) fun c => ?_
  cases c.content with
  | sequence ids => exact .mapM (fun hv hk => hv.mono hk) hf ids
  | scalar | mapping => exact yields_fail

theorem yields_singlePair (i : NodeId) : Yields h n (IsItem h.nodes.size) (singlePair i) := by
  refine .bind_keeps (fun _ _ => keeps_node i) fun c => ?_
  split
  · exact .bind (yields_value _) fun k key _ hkey => .bind (yields_value _) fun k' v hk hv =>
      .pure fun _ hk' => .pair (hkey.mono (Nat.le_trans hk hk')) (hv.mono hk')
  · exact yields_fail

theorem yields_contents (i : NodeId) : Yields h n (IsCollection h.nodes.size) (contents i) := by
  refine .bind_keeps (fun _ _ => keeps_tagOf i) fun tag => ?_
  have hlist {vs : List Value} {k : Nat} (hvs : ∀ v ∈ vs, IsItem h.nodes.size k v) :
      ∀ k', k ≤ k' → IsCollection h.nodes.size k' (.list vs) := fun _ hk =>
    (IsCollection.list hvs).mono hk
  cases tag with
  | seq =>
    exact .bind (yields_items (fun i _ => (yields_value i).imp fun _ _ => .value) i)
      fun _ _ _ hvs => .pure (hlist hvs)
  | map =>
    exact .bind (yields_entries i) fun _ _ _ hes =>
      .pure fun _ hk => (IsCollection.dict hes).mono hk
  | set =>
    exact .bind (yields_entries i) fun _ _ _ hes => .pure fun _ _ =>
      .set fun k hk => (hes.keys k hk).isItem
  | _ =>
    exact .bind (yields_items (fun i _ => yields_singlePair i) i)
      fun _ _ _ hvs => .pure (hlist hvs)

/-- Only collections that wait to be filled are filled, and those are new. -/
theorem yields_fillAll (fuel : Nat) : Yields h n (fun _ _ => True) (fillAll fuel) := by
  induction fuel generalizing n with
  | zero => exact .pure fun _ _ => trivial
  | succ fuel ih =>
    rw [fillAll]
    refine .bind_get fun s hs _ => ?_
    split
    · exact .pure fun _ _ => trivial
    · next i a waiting hwaiting =>
      have hnew := hs.waiting
      rw [hwaiting] at hnew
      obtain ⟨ha, hrest⟩ := List.forall_mem_cons.1 hnew
      refine .bind (.modify fun t ht _ => ⟨⟨ht.loads, hrest, ht.made⟩, Nat.le_refl _⟩)
        fun k _ _ _ => ?_
      refine .bind (yields_contents i) fun k c _ hc => ?_
      refine .bind (.modify fun t ht hk => ?_) fun _ _ _ _ => ih
      have hsize : (t.heap.set a c).nodes.size = t.heap.nodes.size := Array.size_setIfInBounds
      refine ⟨⟨⟨fun b m hm => ?_, fun hb hm => ?_⟩, ht.waiting, fun p hp => ?_⟩,
        Nat.le_of_eq hsize.symm⟩
      · have hne : a ≠ b := by
          rintro rfl
          exact Nat.not_lt.2 ha (Heap.lt_size_of_get? hm)
        exact (Heap.get?_set_ne c hne).trans (ht.loads.ext hm)
      · rw [hsize]
        rcases Heap.get?_set hm with hm | rfl
        · exact ht.loads.new hb hm
        · exact hc.mono hk
      · rw [hsize]
        exact ht.made p hp

end Build

/-- Reading a text puts a document into new nodes of a heap. -/
theorem loads_of_read {h h' : Heap} {text : String} {v : Value} (hread : read h text = .ok (v, h')) :
    Loads h h' ∧ IsLoaded h.nodes.size h'.nodes.size v := by
  have hnone : Loads h h :=
    ⟨.refl h, fun ha hn => absurd (Heap.lt_size_of_get? hn) (Nat.not_lt.2 ha)⟩
  obtain ⟨d, -, hvalue⟩ := bind_eq_ok.1 hread
  unfold Document.value at hvalue
  split at hvalue
  · cases hvalue
    exact ⟨hnone, .scalar rfl⟩
  · next i hi =>
    obtain ⟨⟨v', s⟩, hrun, hvalue⟩ := bind_eq_ok.1 hvalue
    cases hvalue
    have hyields : Build.Yields h 0 (IsLoaded h.nodes.size) (do
        let v ← Build.value i
        Build.fillAll (d.nodes.size + 1)
        return v) :=
      .bind (Build.yields_value i) fun _ v _ hv => .bind (Build.yields_fillAll _)
        fun _ _ hk _ => .pure fun _ hk' => hv.mono (Nat.le_trans hk hk')
    obtain ⟨hgrown, -, hv⟩ := hyields.result (s := { heap := h, nodes := d.nodes })
      ⟨hnone, fun e he => absurd he List.not_mem_nil, fun p hp => absurd hp List.not_mem_nil⟩
      (Nat.zero_le _) hrun
    exact ⟨hgrown.loads, hv⟩

/-- Reading a text into a heap changes no node of the heap. -/
theorem extends_of_read {h h' : Heap} {text : String} {v : Value}
    (hread : read h text = .ok (v, h')) : h.Extends h' :=
  (loads_of_read hread).1.ext

/-- Reading starts from the characters of a text. -/
theorem read_ofList (h : Heap) (cs : List Char) :
    read h (String.ofList cs) = (do
      let ts ← (if !cs.all isAllowed then malformed
        else
          let c : Cursor := { rest := cs }
          let c := if c.peek.toNat = 0xfeff then c.advance else c
          Scan.run (cs.length + 1) { cursor := c })
      (← Document.ofTokens ts).value h) := by
  rw [read, Document.ofText, tokens, String.toList_ofList]
  exact bind_assoc (m := Except Fault) _ _ _

end Yaml

end Dotpath

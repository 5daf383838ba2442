import Dotpath.Proofs.Document.Copy
import Dotpath.Proofs.Walk.PutGet

/-!
# Documents after a write

A write at the end of a path changes one list or dictionary of a document (`Unfolds.write_eq_done`).
The containers before it on the way unfold to higher trees, so they are others, and the way still
leads to what was written (`Unfolds.walk_put`).

After the write the document may lie in itself, and then it unfolds to no tree.  But such a document
cannot be copied: what can be copied unfolds to a tree (`unfolds_of_plainWith`).
-/

namespace Dotpath

/-- Whether a node becomes another one when a value is put at the end of a path. -/
inductive Node.PutsAt (keys : Option Deserializer) (p : Path) (v : Value) : Node → Node → Prop
  | list {items : List Value} {m : Nat} (hm : indexAt p p.lastIndex = .done m)
      (hlt : m < items.length) : PutsAt keys p v (.list items) (.list (items.set m v))
  | dict {es : Entries} {k : Value} (hk : mapKey keys p p.lastIndex = .done k) :
    PutsAt keys p v (.dict .plain es) (.dict .plain (Entries.put es k v))

theorem Tree.exists_key {k : Value} (hk : k.isSimpleKey = true) : ∃ l : Tree.Key, k = l.value := by
  rw [Value.isSimpleKey_iff] at hk
  rcases hk with ⟨s, rfl | ⟨t, rfl⟩, rfl⟩ | ⟨n, rfl⟩
  · exact ⟨.null, rfl⟩
  · exact ⟨.text t, rfl⟩
  · exact ⟨.int n, rfl⟩

namespace Heap

variable {σ : Schema} {h h' : Heap} {keys : Option Deserializer} {p : Path} {i : Int}
  {host c v w : Value} {t u : Tree} {a : Address} {n n' : Node}

/-! ## The changed container -/

theorem Unfolds.put_eq_done (hc : h.Unfolds c u) (hput : h.put σ keys c p v = .done h') :
    ∃ a n n', c = .ref a ∧ h.get? a = some n ∧ n.PutsAt keys p v n' ∧ h' = h.set a n' := by
  cases hc with
  | leaf b => exact absurd hput (put_ne_done_of_object rfl rfl)
  | @list a items ts hn =>
    have hkind : h.classify (.ref a) = .sequence := by simp [classify, isSequence, hn]
    rw [Heap.put, hkind] at hput
    obtain ⟨m, hm, hset⟩ := putMember_eq_done hput
    rw [setItem, hn] at hset
    dsimp only at hset
    split at hset
    · next hlt => exact ⟨a, _, _, rfl, hn, .list (indexAt_of_lastMember hm) hlt,
        (Except.ok.inj hset).symm⟩
    · cases hset
  | @dict a es fs hn =>
    rw [Heap.put, classify_of_dict hn] at hput
    obtain ⟨k, hk, hset⟩ := putKeyed_eq_done hput
    rw [setKey, setKeyWith, hn] at hset
    refine ⟨a, _, _, rfl, hn, .dict hk, ?_⟩
    rw [← Except.ok.inj hset, putEntry, hn]

theorem size_pos_of_parentOf {j : Int} (hc : h.parentOf σ keys host p = .done (c, j)) :
    0 < p.size := by
  rw [parentOf] at hc
  cases hp : p.parent? with
  | none =>
    rw [hp] at hc
    cases hc
  | some q =>
    have hsize := Path.size_of_parent? hp
    rw [Path.lastIndex] at hsize
    omega

/-- A write changes the last container on the way. -/
theorem Unfolds.write_eq_done (hhost : h.Unfolds host t) (hkeys : SegmentOnly keys)
    (hw : h.write σ keys host p v = .done h') :
    ∃ a n n', Leads σ keys p h host 0 h (.ref a) p.lastIndex ∧ h.get? a = some n ∧
      n.PutsAt keys p v n' ∧ h' = h.set a n' := by
  obtain ⟨⟨c, j⟩, hp, hput⟩ := Outcome.bind_eq_done.1 hw
  dsimp only at hput
  split at hput
  · exact absurd hput (failAt_ne_done _ _ _ _ _)
  · have hleads := (leads_iff_parentOf hkeys (size_pos_of_parentOf hp)).2 ⟨⟨j, hp⟩, rfl⟩
    obtain ⟨hleft, u, hu, -, -⟩ := hhost.of_leads hleads
    rw [hleft] at hleads hput
    obtain ⟨a, n, n', rfl, hn, hputs, rfl⟩ := hu.put_eq_done hput
    exact ⟨a, n, n', hleads, hn, hputs, rfl⟩

/-- The last step finds what was put there. -/
theorem step_put (hkeys : SimpleKeys keys) (hn : h.get? a = some n) (hputs : n.PutsAt keys p v n') :
    (h.set a n').step σ keys (.ref a) p p.lastIndex = .done v := by
  rw [← Outcome.result?_eq_some]
  have hself := get?_set_self n' hn
  cases hputs with
  | list hm hlt =>
    rw [result?_step_list hself, hm]
    exact List.getElem?_set_self hlt
  | dict hk =>
    rw [result?_step_mapping hself, hk]
    exact Entries.find?_put_self _ (hkeys.isSimpleKey hk) v

/-- The way through a document leads to what was put at its end. -/
theorem Unfolds.walk_put (hhost : h.Unfolds host t) (hkeys : SimpleKeys keys)
    (ha : Leads σ keys p h host i h' (.ref a) p.lastIndex) (hn : h.get? a = some n)
    (hputs : n.PutsAt keys p v n') : (h.set a n').walk σ keys host p i = .done v := by
  -- Along the path, the trees get lower: no container before the last one is the changed one.
  generalize hc : Value.ref a = c at ha
  generalize hj : p.lastIndex = j at ha
  induction ha generalizing t with
  | here =>
    subst hc hj
    rw [walk_of_lt (by rw [Path.lastIndex]; omega) rfl, step_put hkeys hn hputs]
    exact walk_of_le (by rw [Path.lastIndex]; omega)
  | @step h h' c w d i j hi hnull hstep hrest ih =>
    subst hc hj
    obtain ⟨u, hu, hw⟩ := hhost.of_step hstep
    rw [hhost.leftByStep] at hrest ih
    obtain ⟨-, s, hs, hle, -⟩ := hw.of_leads hrest
    have hne : ∀ b, c = .ref b → (h.set a n').get? b = h.get? b := by
      rintro b rfl
      refine get?_set_ne n' ?_
      rintro rfl
      rw [hs.unique hhost] at hle
      exact Nat.lt_irrefl _ (Nat.lt_of_le_of_lt hle (Tree.height_lt_of_step hu))
    have hstep' : (h.set a n').step σ keys c p i = .done w := by
      rw [← Outcome.result?_eq_some, hhost.result?_step_congr hne, hstep]
      rfl
    rw [walk_of_lt hi hnull, hstep', hhost.leftByStep_congr hne]
    exact ih hw hn rfl rfl

/-- What was put into a document unfolds as it did before. -/
theorem Unfolds.of_put (hkeys : SimpleKeys keys) (hn : h.get? a = some n)
    (hputs : n.PutsAt keys p v n') (hv : (h.set a n').Unfolds v t) : h.Unfolds v t := by
  refine hv.transfer fun {b u} hb hle => (get?_set_ne n' ?_).symm
  rintro rfl
  obtain ⟨s, hs, hv'⟩ := hb.of_step (step_put (σ := {}) hkeys hn hputs)
  rw [hv'.unique hv] at hs
  exact Nat.lt_irrefl _ (Nat.lt_of_lt_of_le (Tree.height_lt_of_step hs) hle)

/-! ## Documents that can be copied -/

/-- Whether values with a property are atoms, lists and dictionaries, and hold only such values. -/
structure HoldsDocuments (h : Heap) (P : Value → Prop) : Prop where
  cases : ∀ {v}, P v → (∃ b : Tree.Atom, v = .scalar b.scalar) ∨
    (∃ a items, v = .ref a ∧ h.get? a = some (.list items) ∧ ∀ w ∈ items, P w) ∨
    ∃ a es, v = .ref a ∧ h.get? a = some (.dict .plain es) ∧ es.Distinct ∧
      ∀ e ∈ es, (∃ k : Tree.Key, e.1 = k.value) ∧ P e.2

/-- After a document has been put into another one, all values that unfolded before still hold only
such values. -/
theorem holdsDocuments_put (hkeys : SimpleKeys keys) (hn : h.get? a = some n)
    (hputs : n.PutsAt keys p v n') (hv : h.Unfolds v t) :
    (h.set a n').HoldsDocuments fun w => ∃ u, h.Unfolds w u := by
  refine ⟨fun {w} ⟨u, hw⟩ => ?_⟩
  cases hw with
  | leaf b => exact .inl ⟨b, rfl⟩
  | @list b items ts hb hitems =>
    have hold : ∀ w ∈ items, ∃ u, h.Unfolds w u := forall_mem_left hitems fun w u _ hw => ⟨u, hw⟩
    by_cases hab : a = b
    · subst hab
      cases hn.symm.trans hb
      cases hputs with
      | list hm hlt =>
        refine .inr (.inl ⟨a, _, rfl, get?_set_self _ hn, fun w hw => ?_⟩)
        rcases List.mem_or_eq_of_mem_set hw with hw | rfl
        · exact hold w hw
        · exact ⟨t, hv⟩
    · exact .inr (.inl ⟨b, items, rfl, (get?_set_ne n' hab).trans hb, hold⟩)
  | @dict b es fs hb hdistinct hentries =>
    have hold : ∀ e ∈ es, (∃ k : Tree.Key, e.1 = k.value) ∧ ∃ u, h.Unfolds e.2 u :=
      forall_mem_left hentries fun e f _ he =>
        ⟨⟨f.1, (Tree.entryOf_iff.1 he).1⟩, f.2, (Tree.entryOf_iff.1 he).2⟩
    by_cases hab : a = b
    · subst hab
      cases hn.symm.trans hb
      cases hputs with
      | dict hk =>
        refine .inr (.inr ⟨a, _, rfl, get?_set_self _ hn, hdistinct.put _ v,
          Entries.forall_mem_put hold (fun e he => ⟨(hold e he).1, t, hv⟩) ⟨?_, t, hv⟩⟩)
        exact Tree.exists_key (hkeys.isSimpleKey hk)
    · exact .inr (.inr ⟨b, es, rfl, (get?_set_ne n' hab).trans hb, hdistinct, hold⟩)

variable {P : Value → Prop} {H : Heap} {f : Heap → Value → Except Fault (Value × Heap)}

theorem unfolds_of_convertAll {items : List Value} {r : List Value × Heap}
    (hf : ∀ {v H r}, P v → h.Extends H → f H v = .ok r → (∃ t, h.Unfolds v t) ∧ H.Extends r.2)
    (hitems : ∀ v ∈ items, P v) (hH : h.Extends H) (hr : convertAll f H items = .ok r) :
    (∃ ts, List.Forall₂ h.Unfolds items ts) ∧ H.Extends r.2 := by
  induction items generalizing H r with
  | nil =>
    cases hr
    exact ⟨⟨[], .nil⟩, .refl H⟩
  | cons v items ih =>
    obtain ⟨hv, hitems⟩ := List.forall_mem_cons.1 hitems
    obtain ⟨⟨v', H₁⟩, hfirst, hr⟩ := bind_eq_ok.1 hr
    obtain ⟨⟨items', H₂⟩, hrest, hr⟩ := bind_eq_ok.1 hr
    cases hr
    obtain ⟨⟨t, ht⟩, hext⟩ := hf hv hH hfirst
    obtain ⟨⟨ts, hts⟩, hext'⟩ := ih hitems (hH.trans hext) hrest
    exact ⟨⟨t :: ts, .cons ht hts⟩, hext.trans hext'⟩

theorem unfolds_of_convertEntries {key : Value → Except Fault Value} {es : Entries}
    {r : Entries × Heap}
    (hf : ∀ {v H r}, P v → h.Extends H → f H v = .ok r → (∃ t, h.Unfolds v t) ∧ H.Extends r.2)
    (hes : ∀ e ∈ es, (∃ k : Tree.Key, e.1 = k.value) ∧ P e.2) (hH : h.Extends H)
    (hr : convertEntries key f H es = .ok r) :
    (∃ fs, List.Forall₂ (Tree.EntryOf h.Unfolds) es fs) ∧ H.Extends r.2 := by
  induction es generalizing H r with
  | nil =>
    cases hr
    exact ⟨⟨[], .nil⟩, .refl H⟩
  | cons e es ih =>
    obtain ⟨k, v⟩ := e
    obtain ⟨⟨⟨l, hl⟩, hv⟩, hes⟩ := List.forall_mem_cons.1 hes
    obtain ⟨k', -, hr⟩ := bind_eq_ok.1 hr
    obtain ⟨⟨v', H₁⟩, hfirst, hr⟩ := bind_eq_ok.1 hr
    obtain ⟨⟨es', H₂⟩, hrest, hr⟩ := bind_eq_ok.1 hr
    cases hr
    obtain ⟨⟨t, ht⟩, hext⟩ := hf hv hH hfirst
    obtain ⟨⟨fs, hfs⟩, hext'⟩ := ih hes (hH.trans hext) hrest
    exact ⟨⟨(l, t) :: fs, .cons (Tree.entryOf_iff.2 ⟨hl, ht⟩) hfs⟩, hext.trans hext'⟩

/-- What can be copied does not lie in itself: it unfolds to a tree. -/
theorem unfolds_of_plainWith (hP : h.HoldsDocuments P) {fuel : Nat} {r : Value × Heap} (hv : P v)
    (hH : h.Extends H) (hr : plainWith σ fuel false H v = .ok r) :
    (∃ t, h.Unfolds v t) ∧ H.Extends r.2 := by
  induction fuel generalizing v H r with
  | zero => cases hr
  | succ fuel ih =>
    rcases hP.cases hv with ⟨b, rfl⟩ | ⟨a, items, rfl, hn, hitems⟩ |
      ⟨a, es, rfl, hn, hdistinct, hes⟩
    · cases b <;> cases hr <;> exact ⟨⟨_, .leaf _⟩, .refl H⟩
    · rw [plainWith, hH hn] at hr
      obtain ⟨⟨items', H₁⟩, hall, hr⟩ := bind_eq_ok.1 hr
      cases hr
      obtain ⟨⟨ts, hts⟩, hext⟩ := unfolds_of_convertAll ih hitems hH hall
      exact ⟨⟨.list ts, .list hn hts⟩, hext.trans (extends_alloc H₁ _)⟩
    · rw [plainWith, hH hn] at hr
      obtain ⟨⟨es', H₁⟩, hall, hr⟩ := bind_eq_ok.1 hr
      cases hr
      obtain ⟨⟨fs, hfs⟩, hext⟩ := unfolds_of_convertEntries ih hes hH hall
      exact ⟨⟨.dict fs, .dict hn hdistinct hfs⟩, hext.trans (extends_alloc H₁ _)⟩

end Heap

end Dotpath

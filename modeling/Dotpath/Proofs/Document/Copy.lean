import Dotpath.Document.Plain
import Dotpath.Proofs.Document.Tree

/-!
# Copies of documents

A document is copied before it is printed.  The copy unfolds to the same tree, and each of its
containers is a new node that lies in one place only: it is *laid out* in a range of addresses of
its own (`Heap.LaidOut`), its parts one after the other and itself last.
-/

namespace Dotpath

/-- Whether two lists are related member by member, each pair over a range of its own, one after the
other. -/
inductive Chain {α β : Type} (R : α → β → Nat → Nat → Prop) : List α → List β → Nat → Nat → Prop
  | nil (lo : Nat) : Chain R [] [] lo lo
  | cons {a b as bs lo mid hi} (hab : R a b lo mid) (h : Chain R as bs mid hi) :
    Chain R (a :: as) (b :: bs) lo hi

namespace Tree

/-- An entry with its pair, over a range. -/
inductive EntryOver (R : Value → Tree → Nat → Nat → Prop) :
    Value × Value → Key × Tree → Nat → Nat → Prop
  | mk (k : Key) {v t lo hi} (hv : R v t lo hi) : EntryOver R (k.value, v) (k, t) lo hi

variable {R R' : Value → Tree → Nat → Nat → Prop} {e : Value × Value} {f : Key × Tree} {lo hi : Nat}

theorem EntryOver.imp (he : EntryOver R e f lo hi)
    (hR : ∀ {v lo hi}, R v f.2 lo hi → R' v f.2 lo hi) : EntryOver R' e f lo hi := by
  cases he with
  | mk k hv => exact .mk k (hR hv)

theorem EntryOver.entryOf {S : Value → Tree → Prop} (he : EntryOver R e f lo hi)
    (hR : ∀ {v lo hi}, R v f.2 lo hi → S v f.2) : EntryOf S e f := by
  cases he with
  | mk k hv => exact .mk k (hR hv)

end Tree

section Chains

variable {α β : Type} {R R' : α → β → Nat → Nat → Prop} {as : List α} {bs : List β} {lo hi : Nat}

theorem Chain.imp (h : Chain R as bs lo hi)
    (hR : ∀ {a b lo hi}, b ∈ bs → R a b lo hi → R' a b lo hi) : Chain R' as bs lo hi := by
  induction h with
  | nil lo => exact .nil lo
  | cons hab _ ih =>
    exact .cons (hR List.mem_cons_self hab) (ih fun hb => hR (List.mem_cons_of_mem _ hb))

theorem Chain.forall₂ {S : α → β → Prop} (h : Chain R as bs lo hi)
    (hR : ∀ {a b lo hi}, R a b lo hi → S a b) : List.Forall₂ S as bs := by
  induction h with
  | nil => exact .nil
  | cons hab _ ih => exact .cons (hR hab) ih

end Chains

namespace Entries

variable {es : Entries} {k v : Value}

theorem put_of_new (hk : ∀ l ∈ es.keys, l.equal k = false) : put es k v = es ++ [(k, v)] := by
  induction es with
  | nil => rfl
  | cons e es ih =>
    obtain ⟨he, hk⟩ := List.forall_mem_cons.1 hk
    rw [put, if_neg (Bool.eq_false_iff.1 he), ih hk, List.cons_append]

/-- Pairs whose keys differ are the pairs of a dictionary already. -/
theorem ofList_of_distinct (hes : es.Distinct) : ofList es = es := by
  suffices h : ∀ front : Entries, Distinct (front ++ es) →
      es.foldl (fun es e => put es e.1 e.2) front = front ++ es from h [] hes
  clear hes
  induction es with
  | nil => exact fun front _ => (List.append_nil front).symm
  | cons e es ih =>
    intro front hdistinct
    rw [List.foldl_cons, put_of_new, ih, List.append_assoc]
    · rfl
    · rwa [List.append_assoc]
    · intro l hl
      rw [Distinct, keys, List.map_append, List.pairwise_append] at hdistinct
      exact hdistinct.2.2 l hl e.1 List.mem_cons_self

theorem forall_mem_put {P : Value × Value → Prop} (hes : ∀ e ∈ es, P e)
    (hold : ∀ e ∈ es, P (e.1, v)) (hnew : P (k, v)) : ∀ e ∈ put es k v, P e := by
  induction es with
  | nil => exact List.forall_mem_singleton.2 hnew
  | cons e es ih =>
    obtain ⟨he, hes⟩ := List.forall_mem_cons.1 hes
    obtain ⟨heold, hold⟩ := List.forall_mem_cons.1 hold
    rw [put]
    split
    · exact List.forall_mem_cons.2 ⟨heold, hes⟩
    · exact List.forall_mem_cons.2 ⟨he, ih hes hold⟩

theorem distinct_ofList (pairs : List (Value × Value)) : (ofList pairs).Distinct := by
  have hfold : ∀ es : Entries, es.Distinct →
      (pairs.foldl (fun es e => put es e.1 e.2) es).Distinct := by
    induction pairs with
    | nil => exact fun _ hes => hes
    | cons e pairs ih => exact fun es hes => ih _ (hes.put e.1 e.2)
  exact hfold [] .nil

theorem forall_mem_ofList {P Q : Value → Prop} {pairs : List (Value × Value)}
    (hpairs : ∀ e ∈ pairs, P e.1 ∧ Q e.2) : ∀ e ∈ ofList pairs, P e.1 ∧ Q e.2 := by
  have hfold : ∀ es : Entries, (∀ e ∈ es, P e.1 ∧ Q e.2) →
      ∀ e ∈ pairs.foldl (fun es e => put es e.1 e.2) es, P e.1 ∧ Q e.2 := by
    induction pairs with
    | nil => exact fun _ hes => hes
    | cons e pairs ih =>
      obtain ⟨he, hpairs⟩ := List.forall_mem_cons.1 hpairs
      exact fun es hes => ih hpairs _ (forall_mem_put hes (fun f hf => ⟨(hes f hf).1, he.2⟩) he)
  exact hfold [] fun e he => absurd he List.not_mem_nil

end Entries

namespace Heap

/-- Whether a value unfolds to a tree through the nodes of a range, each of which is met once. -/
inductive LaidOut (h : Heap) : Value → Tree → Nat → Nat → Prop
  | leaf (a : Tree.Atom) (lo : Nat) : LaidOut h (.scalar a.scalar) (.leaf a) lo lo
  | list {a : Address} {items ts lo} (hn : h.get? a = some (.list items))
      (hitems : Chain (LaidOut h) items ts lo a) : LaidOut h (.ref a) (.list ts) lo (a + 1)
  | dict {a : Address} {es : Entries} {fs lo} (hn : h.get? a = some (.dict .plain es))
      (hdistinct : es.Distinct) (hentries : Chain (Tree.EntryOver (LaidOut h)) es fs lo a) :
      LaidOut h (.ref a) (.dict fs) lo (a + 1)

variable {σ : Schema} {h h' H : Heap} {v : Value} {t : Tree} {lo hi : Nat}

namespace LaidOut

/-- Induction along the way down. -/
@[elab_as_elim]
theorem induction {motive : (v : Value) → (t : Tree) → (lo hi : Nat) → h.LaidOut v t lo hi → Prop}
    (leaf : ∀ (a : Tree.Atom) (lo : Nat), motive (.scalar a.scalar) (.leaf a) lo lo (.leaf a lo))
    (list : ∀ {a items ts lo} (hn : h.get? a = some (.list items))
      (hitems : Chain h.LaidOut items ts lo a),
      Chain (fun v t lo hi => ∃ hv, motive v t lo hi hv) items ts lo a →
        motive (.ref a) (.list ts) lo (a + 1) (.list hn hitems))
    (dict : ∀ {a} {es : Entries} {fs lo} (hn : h.get? a = some (.dict .plain es))
      (hdistinct : es.Distinct) (hentries : Chain (Tree.EntryOver h.LaidOut) es fs lo a),
      Chain (Tree.EntryOver fun v t lo hi => ∃ hv, motive v t lo hi hv) es fs lo a →
        motive (.ref a) (.dict fs) lo (a + 1) (.dict hn hdistinct hentries))
    (hv : h.LaidOut v t lo hi) : motive v t lo hi hv :=
  LaidOut.rec (motive_1 := motive)
    (motive_2 := fun vs ts lo hi _ =>
      Chain (fun v t lo hi => ∃ hv, motive v t lo hi hv) vs ts lo hi)
    (motive_3 := fun es fs lo hi _ =>
      Chain (Tree.EntryOver fun v t lo hi => ∃ hv, motive v t lo hi hv) es fs lo hi)
    (motive_4 := fun e f lo hi _ =>
      Tree.EntryOver (fun v t lo hi => ∃ hv, motive v t lo hi hv) e f lo hi)
    leaf list dict .nil (fun hv _ ihv ihvs => .cons ⟨hv, ihv⟩ ihvs) .nil
    (fun _ _ ihe ihes => .cons ihe ihes) (fun k _ _ _ _ hv ih => .mk k ⟨hv, ih⟩) hv

theorem mono (hv : h.LaidOut v t lo hi) (hh : h.Extends h') : h'.LaidOut v t lo hi := by
  induction hv using induction with
  | leaf a lo => exact .leaf a lo
  | list hn _ ih => exact .list (hh hn) (ih.imp fun _ ⟨_, hv⟩ => hv)
  | dict hn hdistinct _ ih =>
    exact .dict (hh hn) hdistinct (ih.imp fun _ he => he.imp fun ⟨_, hv⟩ => hv)

theorem unfolds (hv : h.LaidOut v t lo hi) : h.Unfolds v t := by
  induction hv using induction with
  | leaf a lo => exact .leaf a
  | list hn _ ih => exact .list hn (ih.forall₂ fun ⟨_, hv⟩ => hv)
  | dict hn hdistinct _ ih =>
    exact .dict hn hdistinct (ih.forall₂ fun he => he.entryOf fun ⟨_, hv⟩ => hv)

/-- A new container of parts that are laid out is laid out after them. -/
theorem alloc_list {items : List Value} {ts : List Tree}
    (hitems : Chain h.LaidOut items ts lo h.nodes.size) :
    (h.alloc (.list items)).1.LaidOut (.ref (h.alloc (.list items)).2) (.list ts) lo
      (h.alloc (.list items)).1.nodes.size := by
  have hlaid := LaidOut.list (get?_alloc_self h (.list items))
    (hitems.imp fun _ hv => hv.mono (extends_alloc h _))
  rwa [size_alloc]

theorem alloc_dict {es : Entries} {fs : List (Tree.Key × Tree)} (hdistinct : es.Distinct)
    (hentries : Chain (Tree.EntryOver h.LaidOut) es fs lo h.nodes.size) :
    (h.alloc (.dict .plain es)).1.LaidOut (.ref (h.alloc (.dict .plain es)).2) (.dict fs) lo
      (h.alloc (.dict .plain es)).1.nodes.size := by
  have hlaid := LaidOut.dict (get?_alloc_self h (.dict .plain es)) hdistinct
    (hentries.imp fun _ he => he.imp fun hv => hv.mono (extends_alloc h _))
  rwa [size_alloc]

end LaidOut

/-! ## Conversion to plain data -/

/-- Whether a conversion copies a value into new nodes, wherever the heap has been extended to. -/
def Copies (f : Heap → Value → Except Fault (Value × Heap)) (h : Heap) (v : Value) (t : Tree) :
    Prop :=
  ∀ H : Heap, h.Extends H → ∃ v' H', f H v = .ok (v', H') ∧ H.Extends H' ∧
    H'.LaidOut v' t H.nodes.size H'.nodes.size

variable {f : Heap → Value → Except Fault (Value × Heap)}

theorem Copies.all {items : List Value} {ts : List Tree}
    (hitems : List.Forall₂ (Copies f h) items ts) (hH : h.Extends H) :
    ∃ items' H', convertAll f H items = .ok (items', H') ∧ H.Extends H' ∧
      Chain H'.LaidOut items' ts H.nodes.size H'.nodes.size := by
  induction hitems generalizing H with
  | nil => exact ⟨[], H, rfl, .refl H, .nil _⟩
  | cons hv _ ih =>
    obtain ⟨v', H₁, hf, hext, hv'⟩ := hv H hH
    obtain ⟨items', H₂, hall, hext', hitems'⟩ := ih (hH.trans hext)
    refine ⟨v' :: items', H₂, ?_, hext.trans hext', .cons (hv'.mono hext') hitems'⟩
    exact bind_eq_ok.2 ⟨_, hf, bind_eq_ok.2 ⟨_, hall, rfl⟩⟩

theorem Copies.entries {key : Value → Except Fault Value}
    (hkey : ∀ k : Tree.Key, key k.value = .ok k.value) {es : Entries}
    {fs : List (Tree.Key × Tree)} (hes : List.Forall₂ (Tree.EntryOf (Copies f h)) es fs)
    (hH : h.Extends H) :
    ∃ es' H', convertEntries key f H es = .ok (es', H') ∧ H.Extends H' ∧
      Chain (Tree.EntryOver H'.LaidOut) es' fs H.nodes.size H'.nodes.size := by
  induction hes generalizing H with
  | nil => exact ⟨[], H, rfl, .refl H, .nil _⟩
  | cons he _ ih =>
    obtain ⟨k, hv⟩ := he
    obtain ⟨v', H₁, hf, hext, hv'⟩ := hv H hH
    obtain ⟨es', H₂, hall, hext', hes'⟩ := ih (hH.trans hext)
    refine ⟨(k.value, v') :: es', H₂, ?_, hext.trans hext', .cons (.mk k (hv'.mono hext')) hes'⟩
    exact bind_eq_ok.2 ⟨_, hkey k, bind_eq_ok.2 ⟨_, hf, bind_eq_ok.2 ⟨_, hall, rfl⟩⟩⟩

theorem plainKey_value (H : Heap) (k : Tree.Key) : H.plainKey σ k.value = .ok k.value := by
  cases k <;> rfl

/-- What unfolds to a tree is copied into new nodes that unfold to the same tree. -/
theorem Unfolds.copies (hv : h.Unfolds v t) {fuel : Nat} (hfuel : t.height ≤ fuel) :
    Copies (plainWith σ fuel false) h v t := by
  induction hv using induction generalizing fuel with
  | leaf a =>
    intro H hH
    refine ⟨.scalar a.scalar, H, ?_, .refl H, .leaf a _⟩
    obtain ⟨fuel, rfl⟩ := Tree.exists_succ_of_height_le hfuel
    cases a <;> rfl
  | @list a items ts hn hitems ih =>
    intro H hH
    obtain ⟨fuel, rfl⟩ := Tree.exists_succ_of_height_le hfuel
    have hparts := forall₂_of_mem ih fun w u hu ⟨_, hw⟩ =>
      hw (Tree.height_le_of_mem_list hfuel hu)
    obtain ⟨items', H₁, hall, hext, hitems'⟩ := Copies.all hparts hH
    refine ⟨_, (H₁.alloc (.list items')).1, ?_, hext.trans (extends_alloc H₁ _),
      .alloc_list hitems'⟩
    rw [plainWith, hH hn]
    exact bind_eq_ok.2 ⟨_, hall, rfl⟩
  | @dict a es fs hn hdistinct hentries ih =>
    intro H hH
    obtain ⟨fuel, rfl⟩ := Tree.exists_succ_of_height_le hfuel
    have hparts := forall₂_of_mem ih fun e f hf he => he.imp fun w ⟨_, hw⟩ =>
      hw (Tree.height_le_of_mem_dict hfuel hf)
    obtain ⟨es', H₁, hall, hext, hes'⟩ := Copies.entries (plainKey_value H) hparts hH
    have hkeys : es'.keys = es.keys :=
      (Tree.keys_eq (hes'.forall₂ fun he => he.entryOf LaidOut.unfolds)).trans
        (Tree.keys_eq hentries).symm
    have hdistinct' : es'.Distinct := by rwa [Entries.Distinct, hkeys]
    refine ⟨_, (H₁.alloc (.dict .plain es')).1, ?_, hext.trans (extends_alloc H₁ _),
      .alloc_dict hdistinct' hes'⟩
    rw [plainWith, hH hn]
    refine bind_eq_ok.2 ⟨_, hall, ?_⟩
    dsimp only
    rw [Entries.ofList_of_distinct hdistinct']
    rfl

end Heap

end Dotpath

import Dotpath.Proofs.Graph.Difference
import Dotpath.Proofs.Walk.Leads
import Mathlib.Data.List.Forall2

/-!
# Documents as trees

A document is nested data: scalars, lists and dictionaries.  On the heap its containers are nodes,
and a node may be part of several others.  A value *unfolds* to the tree that is met on the way down
from it (`Heap.Unfolds`), in which a shared node appears once for every way that leads to it.  No
value unfolds to more than one tree, and a node that lies in itself unfolds to none.

A step of a walk leads from a value to one that unfolds to a child of its tree (`Unfolds.step`), so
along a path the values unfold to ever lower trees, and nothing changes (`Unfolds.of_leads`).
-/

namespace Dotpath

/-- A scalar of a document. -/
inductive Tree.Atom where
  | null
  | bool (b : Bool)
  | int (n : Int)
  | float (x : Binary64)
  | text (s : String)
  deriving DecidableEq

/-- A mapping key of a document. -/
inductive Tree.Key where
  | null
  | bool (b : Bool)
  | int (n : Int)
  | text (s : String)
  deriving DecidableEq

/-- A document without the nodes of its containers. -/
inductive Tree where
  | leaf (a : Tree.Atom)
  | list (items : List Tree)
  | dict (entries : List (Tree.Key × Tree))

namespace Tree

/-- An atom as a scalar. -/
def Atom.scalar : Atom → Scalar
  | null => .null
  | bool b => .bool b
  | int n => .int n
  | float x => .float x
  | text s => .text s

/-- A key as an atom. -/
def Key.atom : Key → Atom
  | null => .null
  | bool b => .bool b
  | int n => .int n
  | text s => .text s

/-- A key as a value. -/
def Key.value (k : Key) : Value := .scalar k.atom.scalar

theorem Atom.scalar_inj {a b : Atom} (hab : a.scalar = b.scalar) : a = b := by
  cases a <;> cases b <;> cases hab <;> rfl

theorem Key.value_inj {k l : Key} (hkl : k.value = l.value) : k = l := by
  cases k <;> cases l <;> cases hkl <;> rfl

/-! ## Heights -/

mutual

/-- The length of the longest way down. -/
def height : Tree → Nat
  | leaf _ => 1
  | list ts => heightOfAll ts + 1
  | dict fs => heightOfEntries fs + 1

/-- The height of the highest of several trees. -/
def heightOfAll : List Tree → Nat
  | [] => 0
  | t :: ts => max t.height (heightOfAll ts)

/-- The height of the highest of the trees under some keys. -/
def heightOfEntries : List (Key × Tree) → Nat
  | [] => 0
  | (_, t) :: fs => max t.height (heightOfEntries fs)

end

theorem height_pos (t : Tree) : 0 < t.height := by
  cases t <;> simp [height]

theorem exists_succ_of_height_le {t : Tree} {n : Nat} (ht : t.height ≤ n) : ∃ m, n = m + 1 :=
  Nat.exists_eq_succ_of_ne_zero (Nat.ne_of_gt (Nat.lt_of_lt_of_le t.height_pos ht))

theorem height_le_of_mem {ts : List Tree} {t : Tree} (ht : t ∈ ts) :
    t.height ≤ heightOfAll ts := by
  induction ts with
  | nil => cases ht
  | cons u ts ih =>
    rw [heightOfAll]
    rcases List.mem_cons.1 ht with rfl | ht
    · exact Nat.le_max_left _ _
    · exact Nat.le_trans (ih ht) (Nat.le_max_right _ _)

theorem height_le_of_mem_entries {fs : List (Key × Tree)} {f : Key × Tree} (hf : f ∈ fs) :
    f.2.height ≤ heightOfEntries fs := by
  induction fs with
  | nil => cases hf
  | cons g fs ih =>
    obtain ⟨k, t⟩ := g
    rw [heightOfEntries]
    rcases List.mem_cons.1 hf with rfl | hf
    · exact Nat.le_max_left _ _
    · exact Nat.le_trans (ih hf) (Nat.le_max_right _ _)

theorem height_le_of_mem_list {ts : List Tree} {t : Tree} {n : Nat}
    (hn : (list ts).height ≤ n + 1) (ht : t ∈ ts) : t.height ≤ n :=
  Nat.le_trans (height_le_of_mem ht) (Nat.le_of_succ_le_succ hn)

theorem height_le_of_mem_dict {fs : List (Key × Tree)} {f : Key × Tree} {n : Nat}
    (hn : (dict fs).height ≤ n + 1) (hf : f ∈ fs) : f.2.height ≤ n :=
  Nat.le_trans (height_le_of_mem_entries hf) (Nat.le_of_succ_le_succ hn)

theorem heightOfAll_le {ts : List Tree} {n : Nat} (hts : ∀ t ∈ ts, t.height ≤ n) :
    heightOfAll ts ≤ n := by
  induction ts with
  | nil => exact Nat.zero_le n
  | cons t ts ih =>
    obtain ⟨ht, hts⟩ := List.forall_mem_cons.1 hts
    exact Nat.max_le.2 ⟨ht, ih hts⟩

theorem heightOfEntries_le {fs : List (Key × Tree)} {n : Nat} (hfs : ∀ f ∈ fs, f.2.height ≤ n) :
    heightOfEntries fs ≤ n := by
  induction fs with
  | nil => exact Nat.zero_le n
  | cons f fs ih =>
    obtain ⟨hf, hfs⟩ := List.forall_mem_cons.1 hfs
    exact Nat.max_le.2 ⟨hf, ih hfs⟩

/-! ## Steps -/

/-- The tree under a key. -/
def find? (fs : List (Key × Tree)) (k : Value) : Option Tree :=
  (fs.find? fun f => f.1.value.equal k).map Prod.snd

/-- The child that the segment of a path denotes. -/
def step (keys : Option Deserializer) (p : Path) (i : Int) : Tree → Option Tree
  | leaf _ => none
  | list ts => (indexAt p i).result?.bind fun n => ts[n]?
  | dict fs => (mapKey keys p i).result?.bind (find? fs)

variable {keys : Option Deserializer} {p : Path} {i : Int}

theorem height_lt_of_step {t u : Tree} (hu : t.step keys p i = some u) : u.height < t.height := by
  cases t with
  | leaf a => cases hu
  | list ts =>
    obtain ⟨n, -, hn⟩ := Option.bind_eq_some_iff.1 hu
    exact Nat.lt_succ_of_le (height_le_of_mem (List.mem_of_getElem? hn))
  | dict fs =>
    obtain ⟨k, -, hk⟩ := Option.bind_eq_some_iff.1 hu
    obtain ⟨f, hf, rfl⟩ := Option.map_eq_some_iff.1 hk
    exact Nat.lt_succ_of_le (height_le_of_mem_entries (List.mem_of_find?_eq_some hf))

end Tree

/-! ## Values with their trees -/

section Related

variable {α β : Type} {as : List α} {bs : List β}

theorem forall₂_of_mem {R S : α → β → Prop} (h : List.Forall₂ R as bs)
    (hRS : ∀ a, ∀ b ∈ bs, R a b → S a b) : List.Forall₂ S as bs := by
  induction h with
  | nil => exact .nil
  | cons hab _ ih =>
    exact .cons (hRS _ _ List.mem_cons_self hab)
      (ih fun a b hb => hRS a b (List.mem_cons_of_mem _ hb))

theorem forall_mem_right {R : α → β → Prop} {P : β → Prop} (h : List.Forall₂ R as bs)
    (hR : ∀ a, ∀ b ∈ bs, R a b → P b) : ∀ b ∈ bs, P b := by
  induction h with
  | nil => exact fun b hb => by cases hb
  | cons hab _ ih =>
    exact List.forall_mem_cons.2 ⟨hR _ _ List.mem_cons_self hab,
      ih fun a b hb => hR a b (List.mem_cons_of_mem _ hb)⟩

theorem forall_mem_left {R : α → β → Prop} {P : α → Prop} (h : List.Forall₂ R as bs)
    (hR : ∀ a, ∀ b ∈ bs, R a b → P a) : ∀ a ∈ as, P a := by
  induction h with
  | nil => exact fun a ha => by cases ha
  | cons hab _ ih =>
    exact List.forall_mem_cons.2 ⟨hR _ _ List.mem_cons_self hab,
      ih fun a b hb => hR a b (List.mem_cons_of_mem _ hb)⟩

theorem forall₂_unique {R S : α → β → Prop} {cs : List β} (hb : List.Forall₂ R as bs)
    (hc : List.Forall₂ S as cs) (hRS : ∀ {a b c}, R a b → S a c → b = c) : bs = cs := by
  induction hb generalizing cs with
  | nil =>
    cases hc
    rfl
  | cons hab _ ih =>
    obtain _ | ⟨hac, hc⟩ := hc
    rw [hRS hab hac, ih hc]

theorem rel_getElem? {R : α → β → Prop} (h : List.Forall₂ R as bs) (n : Nat) :
    Option.Rel R as[n]? bs[n]? := by
  induction h generalizing n with
  | nil => exact .none
  | cons hab _ ih =>
    cases n with
    | zero => exact .some hab
    | succ n => exact ih n

end Related

namespace Tree

/-- Whether a pair of a dictionary is an entry of a tree: the same key, and a value related to the
tree. -/
inductive EntryOf (R : Value → Tree → Prop) : Value × Value → Key × Tree → Prop
  | mk (k : Key) {v : Value} {t : Tree} (hv : R v t) : EntryOf R (k.value, v) (k, t)

variable {R R' : Value → Tree → Prop}

theorem entryOf_iff {e : Value × Value} {f : Key × Tree} :
    EntryOf R e f ↔ e.1 = f.1.value ∧ R e.2 f.2 := by
  constructor
  · rintro ⟨k, hv⟩
    exact ⟨rfl, hv⟩
  · obtain ⟨k, v⟩ := e
    rintro ⟨rfl, hv⟩
    exact .mk _ hv

theorem EntryOf.imp {e : Value × Value} {f : Key × Tree} (he : EntryOf R e f)
    (hR : ∀ v, R v f.2 → R' v f.2) : EntryOf R' e f := by
  cases he with
  | mk k hv => exact .mk k (hR _ hv)

theorem keys_eq {es : Entries} {fs : List (Key × Tree)} (hes : List.Forall₂ (EntryOf R) es fs) :
    es.keys = fs.map fun f => f.1.value := by
  induction hes with
  | nil => rfl
  | cons he _ ih => exact congrArg₂ List.cons (entryOf_iff.1 he).1 ih

theorem rel_find? {es : Entries} {fs : List (Key × Tree)} (hes : List.Forall₂ (EntryOf R) es fs)
    (k : Value) : Option.Rel R (Entries.find? es k) (find? fs k) := by
  induction hes with
  | nil => exact .none
  | cons he _ ih =>
    obtain ⟨l, hv⟩ := he
    unfold Entries.find? find? at ih ⊢
    rw [List.find?_cons, List.find?_cons]
    cases l.value.equal k with
    | true => exact .some hv
    | false => exact ih

end Tree

namespace Heap

/-- Whether a tree is met on the way down from a value. -/
inductive Unfolds (h : Heap) : Value → Tree → Prop
  | leaf (a : Tree.Atom) : Unfolds h (.scalar a.scalar) (.leaf a)
  | list {a : Address} {items : List Value} {ts : List Tree} (hn : h.get? a = some (.list items))
      (hitems : List.Forall₂ (Unfolds h) items ts) : Unfolds h (.ref a) (.list ts)
  | dict {a : Address} {es : Entries} {fs : List (Tree.Key × Tree)}
      (hn : h.get? a = some (.dict .plain es)) (hdistinct : es.Distinct)
      (hentries : List.Forall₂ (Tree.EntryOf (Unfolds h)) es fs) : Unfolds h (.ref a) (.dict fs)

variable {σ : Schema} {h h' : Heap} {keys : Option Deserializer} {p : Path} {i : Int}
  {v w : Value} {t u : Tree} {a : Address}

theorem result?_step_list {items : List Value} (hn : h.get? a = some (.list items)) :
    (h.step σ keys (.ref a) p i).result? = (indexAt p i).result?.bind fun n => items[n]? :=
  result?_step_sequence (by simp [classify, isSequence, hn]) (by rw [length, hn]; rfl)
    (by intro n; rw [member?, hn]; rfl) (by intro n; rw [interruption?, hn])

namespace Unfolds

/-- Induction along the way down. -/
@[elab_as_elim]
theorem induction {motive : (v : Value) → (t : Tree) → h.Unfolds v t → Prop}
    (leaf : ∀ a : Tree.Atom, motive (.scalar a.scalar) (.leaf a) (.leaf a))
    (list : ∀ {a items ts} (hn : h.get? a = some (.list items))
      (hitems : List.Forall₂ h.Unfolds items ts),
      List.Forall₂ (fun v t => ∃ hv, motive v t hv) items ts →
        motive (.ref a) (.list ts) (.list hn hitems))
    (dict : ∀ {a} {es : Entries} {fs} (hn : h.get? a = some (.dict .plain es))
      (hdistinct : es.Distinct) (hentries : List.Forall₂ (Tree.EntryOf h.Unfolds) es fs),
      List.Forall₂ (Tree.EntryOf fun v t => ∃ hv, motive v t hv) es fs →
        motive (.ref a) (.dict fs) (.dict hn hdistinct hentries))
    (hv : h.Unfolds v t) : motive v t hv :=
  Unfolds.rec (motive_1 := motive)
    (motive_2 := fun vs ts _ => List.Forall₂ (fun v t => ∃ hv, motive v t hv) vs ts)
    (motive_3 := fun es fs _ => List.Forall₂ (Tree.EntryOf fun v t => ∃ hv, motive v t hv) es fs)
    (motive_4 := fun e f _ => Tree.EntryOf (fun v t => ∃ hv, motive v t hv) e f)
    leaf list dict .nil (fun hv _ ihv ihvs => .cons ⟨hv, ihv⟩ ihvs) .nil
    (fun _ _ ihe ihes => .cons ihe ihes) (fun k _ _ hv ih => .mk k ⟨hv, ih⟩) hv

theorem unique (ht : h.Unfolds v t) (hu : h.Unfolds v u) : t = u := by
  induction ht using induction generalizing u with
  | leaf a =>
    generalize hw : Value.scalar a.scalar = w at hu
    cases hu with
    | leaf b => rw [Tree.Atom.scalar_inj (Value.scalar.inj hw)]
    | list | dict => cases hw
  | list hn hitems ih =>
    cases hu with
    | dict hn' => simp [hn] at hn'
    | list hn' hitems' =>
      obtain rfl : _ = _ := Node.list.inj (Option.some.inj (hn.symm.trans hn'))
      rw [forall₂_unique ih hitems' fun ⟨_, hv⟩ hu => hv hu]
  | dict hn hdistinct hentries ih =>
    cases hu with
    | list hn' => simp [hn] at hn'
    | dict hn' hdistinct' hentries' =>
      obtain rfl : _ = _ := (Node.dict.inj (Option.some.inj (hn.symm.trans hn'))).2
      rw [forall₂_unique ih hentries']
      intro e f g hf hg
      obtain ⟨hkey, -, hf⟩ := Tree.entryOf_iff.1 hf
      obtain ⟨hkey', hg⟩ := Tree.entryOf_iff.1 hg
      exact Prod.ext (Tree.Key.value_inj (hkey.symm.trans hkey')) (hf hg)

/-- What a value unfolds to, it unfolds to in every heap with the same nodes on the way down. -/
theorem transfer (hv : h.Unfolds v t)
    (hsame : ∀ {b u}, h.Unfolds (.ref b) u → u.height ≤ t.height → h'.get? b = h.get? b) :
    h'.Unfolds v t := by
  induction hv using induction with
  | leaf a => exact .leaf a
  | list hn hitems ih =>
    rw [← hsame (.list hn hitems) (Nat.le_refl _)] at hn
    refine .list hn (forall₂_of_mem ih fun w u hu ⟨hw, ihw⟩ => ihw fun hb hle => hsame hb ?_)
    exact Nat.le_trans hle (Nat.le_succ_of_le (Tree.height_le_of_mem hu))
  | dict hn hdistinct hentries ih =>
    rw [← hsame (.dict hn hdistinct hentries) (Nat.le_refl _)] at hn
    refine .dict hn hdistinct (forall₂_of_mem ih fun e f hf he => he.imp fun w ⟨hw, ihw⟩ =>
      ihw fun hb hle => hsame hb ?_)
    exact Nat.le_trans hle (Nat.le_succ_of_le (Tree.height_le_of_mem_entries hf))

theorem mono (hv : h.Unfolds v t) (hh : h.Extends h') : h'.Unfolds v t := by
  refine hv.transfer fun hb _ => ?_
  cases hb with
  | list hn | dict hn => rw [hn, hh hn]

/-! ## Steps -/

/-- A step into a value leads where the same step leads in its tree. -/
theorem rel_step (hv : h.Unfolds v t) :
    Option.Rel h.Unfolds (h.step σ keys v p i).result? (t.step keys p i) := by
  cases hv with
  | leaf a =>
    rw [result?_step_of_object rfl rfl]
    exact .none
  | @list a items ts hn hitems =>
    rw [result?_step_list hn, Tree.step]
    cases (indexAt p i).result? with
    | none => exact .none
    | some n => exact rel_getElem? hitems n
  | @dict a es fs hn hdistinct hentries =>
    rw [result?_step_mapping hn, Tree.step]
    cases (mapKey keys p i).result? with
    | none => exact .none
    | some k => exact Tree.rel_find? hentries k

/-- A step depends on nothing but the node at which it is taken. -/
theorem result?_step_congr (hv : h.Unfolds v t) (hsame : ∀ b, v = .ref b → h'.get? b = h.get? b) :
    (h'.step σ keys v p i).result? = (h.step σ keys v p i).result? := by
  cases hv with
  | leaf a => rw [result?_step_of_object rfl rfl, result?_step_of_object rfl rfl]
  | @list a items ts hn =>
    rw [result?_step_list hn, result?_step_list ((hsame a rfl).trans hn)]
  | @dict a es fs hn =>
    rw [result?_step_mapping hn, result?_step_mapping ((hsame a rfl).trans hn)]

/-- A step leads to a value that unfolds to a child of the tree. -/
theorem of_step (hv : h.Unfolds v t) (hw : h.step σ keys v p i = .done w) :
    ∃ u, t.step keys p i = some u ∧ h.Unfolds w u := by
  have hrel : Option.Rel h.Unfolds (h.step σ keys v p i).result? (t.step keys p i) := hv.rel_step
  rw [hw] at hrel
  generalize t.step keys p i = r at hrel
  cases hrel with
  | some hw => exact ⟨_, rfl, hw⟩

/-- What the tree has a child for, a step leads to. -/
theorem step (hv : h.Unfolds v t) (hu : t.step keys p i = some u) :
    ∃ w, h.step σ keys v p i = .done w ∧ h.Unfolds w u := by
  have hrel : Option.Rel h.Unfolds (h.step σ keys v p i).result? (t.step keys p i) := hv.rel_step
  rw [hu] at hrel
  generalize hr : (h.step σ keys v p i).result? = r at hrel
  cases hrel with
  | some hw => exact ⟨_, Outcome.result?_eq_some.1 hr, hw⟩

/-- A step leaves the heap, in every heap with the same node at the value. -/
theorem leftByStep_congr (hv : h.Unfolds v t) (hsame : ∀ b, v = .ref b → h'.get? b = h.get? b) :
    h'.leftByStep keys v p i = h' := by
  cases hv with
  | leaf a => rfl
  | @list a items ts hn =>
    rw [← hsame a rfl] at hn
    have hkind : h'.classify (.ref a) = .sequence := by simp [classify, isSequence, hn]
    rw [Heap.leftByStep, hkind]
    rfl
  | @dict a es fs hn =>
    rw [← hsame a rfl] at hn
    rw [Heap.leftByStep, classify_of_dict hn, leftByStepInto, leftByEntry]
    split
    · rw [lookUp_of_dict hn]
    · rfl
    · rfl

theorem leftByStep (hv : h.Unfolds v t) : h.leftByStep keys v p i = h :=
  hv.leftByStep_congr fun _ _ => rfl

/-- The values to which segments lead unfold to trees that get lower, and nothing changes on the
way. -/
theorem of_leads {c : Value} {j : Int} (hv : h.Unfolds v t) (hc : Leads σ keys p h v i h' c j) :
    h' = h ∧ ∃ u, h.Unfolds c u ∧ u.height ≤ t.height ∧ (i < j → u.height < t.height) := by
  induction hc generalizing t with
  | here => exact ⟨rfl, t, hv, Nat.le_refl _, fun hlt => absurd hlt (Int.lt_irrefl _)⟩
  | step hi hnull hw hrest ih =>
    obtain ⟨s, hs, hw⟩ := hv.of_step hw
    rw [hv.leftByStep] at ih
    obtain ⟨rfl, u, hu, hle, -⟩ := ih hw
    have hlt := Nat.lt_of_le_of_lt hle (Tree.height_lt_of_step hs)
    exact ⟨rfl, u, hu, Nat.le_of_lt hlt, fun _ => hlt⟩

theorem isNull_of_step (hv : h.Unfolds v t) (hu : t.step keys p i = some u) : v.isNull = false := by
  cases hv with
  | leaf a => cases hu
  | list | dict => rfl

/-- Where the trees of two values take related steps, walks lead to values of related trees. -/
theorem walk_of_rel {R : Tree → Tree → Prop} {v' : Value} {t' : Tree}
    (hR : ∀ {c j u u' w}, Leads σ keys p h v i h c j → j < p.size → h.Unfolds c u → R u u' →
      u.step keys p j = some w → ∃ w', u'.step keys p j = some w' ∧ R w w')
    (hv : h.Unfolds v t) (hv' : h'.Unfolds v' t') (ht : R t t')
    (hw : h.walk σ keys v p i = .done w) :
    ∃ w' u u', h'.walk σ keys v' p i = .done w' ∧ h.Unfolds w u ∧ h'.Unfolds w' u' ∧ R u u' := by
  induction hn : (p.size - i).toNat generalizing v v' t t' i with
  | zero =>
    rw [walk_of_le (by omega)] at hw
    cases hw
    exact ⟨v', t, t', walk_of_le (by omega), hv, hv', ht⟩
  | succ n ih =>
    have hi : i < p.size := by omega
    cases hnull : v.isNull with
    | true =>
      rw [walk_of_isNull hi hnull] at hw
      exact absurd hw (failAt_ne_done _ _ _ _ _)
    | false =>
      rw [walk_of_lt hi hnull, hv.leftByStep] at hw
      obtain ⟨x, hstep, hw⟩ := Outcome.bind_eq_done.1 hw
      obtain ⟨u, hu, hx⟩ := hv.of_step hstep
      obtain ⟨u', hu', hrel⟩ := hR (.here h v i) hi hv ht hu
      obtain ⟨x', hstep', hx'⟩ := hv'.step (σ := σ) hu'
      rw [walk_of_lt hi (hv'.isNull_of_step hu'), hstep', hv'.leftByStep]
      refine ih (fun hc => hR (.step hi hnull hstep ?_)) hx hx' hrel hw (by omega)
      rw [hv.leftByStep]
      exact hc

end Unfolds

end Heap

end Dotpath

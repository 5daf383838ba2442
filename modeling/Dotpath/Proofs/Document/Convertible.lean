import Dotpath.Document.Plain
import Dotpath.Proofs.Document.PlainData
import Dotpath.Proofs.Graph.Printable

/-!
# Values with a plain form

What is built of atoms with tuples, lists, sets, dictionaries, records and arrays has a plain form
(`Heap.Convertible`).  The members of arrays are taken over unchanged, so those of an array of
objects have to be plain data before.  Such a value is acyclic, and plain data is among them.
-/

namespace Dotpath

/-- Whether a scalar is an atom, or an array element that is one.  No atom is as wide as a long
double. -/
inductive Scalar.StandsFor : Scalar → Tree.Atom → Prop
  | atom (a : Tree.Atom) : StandsFor a.scalar a
  | element {type : String} (htype : type ≠ "longdouble") (a : Tree.Atom) :
      StandsFor (.machine type a.scalar) a

/-- Whether a value can be a cell of an array of integers, floating-point numbers, truth values, texts
or plain data. -/
def ElementType.Holds (h : Heap) (t : ElementType) (w : Value) : Prop :=
  match t.form with
  | .signed | .unsigned => ∃ n, w = .scalar (.int n)
  | .real => t.size ≤ 8 ∧ ∃ x, w = .scalar (.float x)
  | .truth => ∃ b, w = .scalar (.bool b)
  | .text => ∃ s, w = .scalar (.text s)
  | .object => h.IsPlain w
  | _ => False

namespace Heap

/-- Whether a value is a key that plain data can have, or one with a text to stand for it. -/
inductive IsKey (σ : Schema) (h : Heap) : Value → Prop
  | kept (k : PlainData.Key) : IsKey σ h k.value
  | shown {k : Value} (hk : ∀ s, k = .scalar s → s.isPlainKey = false) (hprints : h.Prints σ k) :
      IsKey σ h k

/-- Whether a value is built of what has a plain form.  A record is copied first, and its copy cannot
hold a dictionary with a default, or one with a record in a key. -/
inductive Convertible (σ : Schema) (h : Heap) : (inRecord : Bool) → Value → Prop
  | scalar {r : Bool} {s : Scalar} {a : Tree.Atom} (hs : s.StandsFor a) :
      Convertible σ h r (.scalar s)
  | tuple {r : Bool} {items : List Value} (hitems : ∀ w ∈ items, Convertible σ h r w) :
      Convertible σ h r (.tuple items)
  | named {r : Bool} {type : String} {fields : List String} {items : List Value}
      (hitems : ∀ w ∈ items, Convertible σ h r w) : Convertible σ h r (.named type fields items)
  | frozenSet {r : Bool} {items : List Value} (hitems : ∀ w ∈ items, Convertible σ h r w) :
      Convertible σ h r (.frozenSet items)
  | list {r : Bool} {a : Address} {items : List Value} (hn : h.get? a = some (.list items))
      (hitems : ∀ w ∈ items, Convertible σ h r w) : Convertible σ h r (.ref a)
  | set {r : Bool} {a : Address} {items : List Value} (hn : h.get? a = some (.set items))
      (hitems : ∀ w ∈ items, Convertible σ h r w) : Convertible σ h r (.ref a)
  | dict {r : Bool} {a : Address} {type : DictType} {es : Entries}
      (hn : h.get? a = some (.dict type es))
      (hcopy : r = true → type ≠ .defaulting ∧ copiesSomeRecord σ h es.keys = false)
      (hkeys : ∀ k ∈ es.keys, h.IsKey σ k) (hvalues : ∀ w ∈ es.values, Convertible σ h r w) :
      Convertible σ h r (.ref a)
  | array {r : Bool} {a : Address} {t : ElementType} {shape : List Nat} {cells : List Value}
      {writeable : Bool} (hn : h.get? a = some (.grid t shape cells writeable))
      (hcells : ∀ w ∈ cells, t.Holds h w) : Convertible σ h r (.ref a)
  | row {r : Bool} {a offset : Nat} {shape : List Nat} {t : ElementType} {whole : List Nat}
      {cells : List Value} {writeable : Bool} (hn : h.get? a = some (.grid t whole cells writeable))
      (hcells : ∀ w ∈ cells, t.Holds h w) : Convertible σ h r (.row a offset shape)
  | record {r : Bool} {a : Address} {type : String} {attrs : List (String × Value)}
      (hr : h.HoldsRecord σ a type attrs)
      (hfields : ∀ f ∈ σ.fields type, ∀ w, attrs.lookup f.name = some w → Convertible σ h true w) :
      Convertible σ h r (.ref a)

variable {σ : Schema} {h h' H : Heap} {v w : Value} {a : Address} {r : Bool} {d : PlainData}

/-! ## Keys and cells -/

theorem plainKey_kept (σ : Schema) (H : Heap) (k : PlainData.Key) :
    H.plainKey σ k.value = .ok k.value := by
  cases k with
  | atom a => cases a <;> rfl
  | float64 | str => rfl

theorem copiesSomeRecord_keys (ks : List PlainData.Key) :
    copiesSomeRecord σ h (ks.map PlainData.Key.value) = false := by
  induction ks with
  | nil => rfl
  | cons k ks ih =>
    rw [List.map_cons, copiesSomeRecord, ih]
    cases k <;> rfl

theorem copiesSomeRecord_congr {ks : List Value}
    (hks : ∀ k ∈ ks, copiesRecord σ H k = copiesRecord σ h k) :
    copiesSomeRecord σ H ks = copiesSomeRecord σ h ks := by
  induction ks with
  | nil => rfl
  | cons k ks ih =>
    obtain ⟨hk, hks⟩ := List.forall_mem_cons.1 hks
    rw [copiesSomeRecord, copiesSomeRecord, hk, ih hks]

theorem Prints.copiesRecord {k : Value} (hk : h.Prints σ k) (hH : h.Extends H) :
    copiesRecord σ H k = copiesRecord σ h k := by
  induction hk with
  | tuple _ ih | named _ ih => exact copiesSomeRecord_congr ih
  | collection hn => rw [Heap.copiesRecord, Heap.copiesRecord, hn, hH hn]
  | record hr => rw [Heap.copiesRecord, Heap.copiesRecord, hr.node, hH hr.node]
  | scalar | frozenSet | range | row => rfl

namespace IsKey

variable {k : Value}

theorem copiesRecord (hk : h.IsKey σ k) (hH : h.Extends H) :
    copiesRecord σ H k = copiesRecord σ h k := by
  cases hk with
  | kept k => cases k <;> rfl
  | shown _ hprints => exact hprints.copiesRecord hH

theorem mono (hk : h.IsKey σ k) (hh : h.Extends h') : h'.IsKey σ k := by
  cases hk with
  | kept k => exact .kept k
  | shown hk hprints => exact .shown hk (hprints.mono hh)

theorem isAcyclic (hk : h.IsKey σ k) : h.IsAcyclic σ k := by
  cases hk with
  | kept k => cases k <;> exact isAcyclic_scalar _
  | shown _ hprints => exact hprints.isAcyclic

/-- A key has a key of plain data to stand for it. -/
theorem exists_plainKey (hk : h.IsKey σ k) :
    ∃ l : PlainData.Key, h.plainKey σ k = .ok l.value := by
  cases hk with
  | kept k => exact ⟨k, plainKey_kept σ h k⟩
  | shown hk hprints =>
    obtain ⟨t, ht⟩ := hprints.succeeds_text.exists_ok
    refine ⟨.atom (.text t), ?_⟩
    cases k with
    | scalar s =>
      rw [plainKey, hk s rfl]
      exact bind_eq_ok.2 ⟨t, ht, rfl⟩
    | _ => exact bind_eq_ok.2 ⟨t, ht, rfl⟩

end IsKey

/-- The members of an array are plain data. -/
theorem isPlain_of_holds {t : ElementType} (hw : t.Holds h w) : h.IsPlain w := by
  unfold ElementType.Holds at hw
  split at hw
  · obtain ⟨n, rfl⟩ := hw
    exact ⟨_, .leaf (.int n)⟩
  · obtain ⟨n, rfl⟩ := hw
    exact ⟨_, .leaf (.int n)⟩
  · obtain ⟨-, x, rfl⟩ := hw
    exact ⟨_, .leaf (.float x)⟩
  · obtain ⟨b, rfl⟩ := hw
    exact ⟨_, .leaf (.bool b)⟩
  · obtain ⟨s, rfl⟩ := hw
    exact ⟨_, .leaf (.text s)⟩
  · exact hw
  · exact hw.elim

theorem Convertible.isAcyclic (hv : h.Convertible σ r v) : h.IsAcyclic σ v := by
  have hcell : ∀ {t : ElementType} {w}, t.Holds h w → h.IsAcyclic σ w := fun hw =>
    (isPlain_of_holds hw).elim fun _ => Shows.isAcyclic
  induction hv with
  | scalar => exact isAcyclic_scalar _
  | tuple _ ih | named _ ih | frozenSet _ ih => exact .intro _ ih
  | list hn _ ih | set hn _ ih =>
    refine .intro _ fun w hw => ih w ?_
    rwa [IsPart, parts_of_get? hn] at hw
  | dict hn _ hkeys _ ih =>
    refine .intro _ fun w hw => ?_
    rw [IsPart, parts_of_get? hn] at hw
    exact (List.mem_append.1 hw).elim (fun hw => (hkeys w hw).isAcyclic) (ih w)
  | array hn hcells =>
    refine .intro _ fun w hw => hcell (hcells w ?_)
    rwa [IsPart, parts_of_get? hn] at hw
  | row hn hcells =>
    refine .intro _ fun w hw => ?_
    rw [List.mem_singleton.1 hw]
    refine .intro _ fun w hw => hcell (hcells w ?_)
    rwa [IsPart, parts_of_get? hn] at hw
  | record hr _ ih =>
    refine .intro _ fun w hw => ?_
    obtain ⟨f, hf, hw⟩ := hr.mem_parts.1 hw
    exact ih f hf w hw

/-- Plain data can be converted again. -/
theorem Shows.convertible (hv : h.Shows v d) (r : Bool) : h.Convertible σ r v := by
  induction hv using Shows.induction with
  | leaf a => exact .scalar (.atom a)
  | list hn _ ih => exact .list hn (forall_mem_left ih fun _ _ _ ⟨_, hw⟩ => hw)
  | @dict _ _ fs hn _ hkeys _ ih =>
    have hcopy := copiesSomeRecord_keys (σ := σ) (h := h) (fs.map Prod.fst)
    rw [List.map_map] at hcopy
    refine .dict hn (fun _ => ⟨nofun, hkeys ▸ hcopy⟩) (fun k hk => ?_)
      (forall_mem_left ih fun _ _ _ ⟨_, hw⟩ => hw)
    rw [hkeys] at hk
    obtain ⟨f, -, rfl⟩ := List.mem_map.1 hk
    exact .kept f.1

/-- What a value shows on a later heap it shows before, if all of its nodes are there. -/
theorem Convertible.shows_of_extends (hv : h.Convertible σ r v) (hH : h.Extends H)
    (hd : H.Shows v d) : h.Shows v d := by
  induction hd using Shows.induction with
  | leaf a => exact .leaf a
  | list hn _ ih =>
    cases hv with
    | list hn' hitems =>
      obtain rfl := Node.list.inj (Option.some.inj ((hH hn').symm.trans hn))
      exact .list hn' (((List.forall₂_and_left _ _).2 ⟨hitems, ih⟩).imp
        fun _ _ ⟨hw, _, ihw⟩ => ihw hw)
    | set hn' | dict hn' | array hn' => cases (hH hn').symm.trans hn
    | record hr => cases (hH hr.node).symm.trans hn
  | dict hn hdistinct hkeys _ ih =>
    cases hv with
    | dict hn' _ _ hvalues =>
      obtain ⟨rfl, rfl⟩ := Node.dict.inj (Option.some.inj ((hH hn').symm.trans hn))
      exact .dict hn' hdistinct hkeys (((List.forall₂_and_left _ _).2 ⟨hvalues, ih⟩).imp
        fun _ _ ⟨hw, _, ihw⟩ => ihw hw)
    | list hn' | set hn' | array hn' => cases (hH hn').symm.trans hn
    | record hr => cases (hH hr.node).symm.trans hn

end Heap

end Dotpath

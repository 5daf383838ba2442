import Dotpath.Proofs.Document.Tree
import Dotpath.Proofs.Graph.Acyclic

/-!
# Plain data

Plain data is made of lists, dictionaries and scalars only.  It is what a document can hold, and a
little more than the documents that are read from texts: keys may be floating-point numbers, also
those out of an array.  A value of the heap *shows* plain data (`Heap.Shows`) if its nodes are lists
and plain dictionaries of it at every depth.
-/

namespace Dotpath

/-- A key of plain data: an atom, or one of the two machine scalars that are atoms too. -/
inductive PlainData.Key where
  | atom (a : Tree.Atom)
  | float64 (x : Binary64)
  | str (s : String)
  deriving DecidableEq

/-- Lists, dictionaries and scalars, without the nodes of the heap. -/
inductive PlainData where
  | leaf (a : Tree.Atom)
  | list (items : List PlainData)
  | dict (entries : List (PlainData.Key × PlainData))

/-- A key as a value. -/
def PlainData.Key.value : PlainData.Key → Value
  | atom a => .scalar a.scalar
  | float64 x => .scalar (.machine "float64" (.float x))
  | str s => .scalar (.machine "str_" (.text s))

namespace Heap

/-- Whether a value is plain data on the heap. -/
inductive Shows (h : Heap) : Value → PlainData → Prop
  | leaf (a : Tree.Atom) : Shows h (.scalar a.scalar) (.leaf a)
  | list {a : Address} {items : List Value} {ds : List PlainData}
      (hn : h.get? a = some (.list items)) (hitems : List.Forall₂ (Shows h) items ds) :
      Shows h (.ref a) (.list ds)
  | dict {a : Address} {es : Entries} {fs : List (PlainData.Key × PlainData)}
      (hn : h.get? a = some (.dict .plain es)) (hdistinct : es.Distinct)
      (hkeys : es.keys = fs.map fun f => f.1.value)
      (hvalues : List.Forall₂ (Shows h) es.values (fs.map Prod.snd)) : Shows h (.ref a) (.dict fs)

/-- Whether a value is some plain data on the heap. -/
def IsPlain (h : Heap) (v : Value) : Prop := ∃ d, h.Shows v d

variable {σ : Schema} {h h' : Heap} {v : Value} {d : PlainData} {a : Address}

/-- Induction along the way down. -/
@[elab_as_elim]
theorem Shows.induction {motive : (v : Value) → (d : PlainData) → h.Shows v d → Prop}
    (leaf : ∀ a : Tree.Atom, motive (.scalar a.scalar) (.leaf a) (.leaf a))
    (list : ∀ {a items ds} (hn : h.get? a = some (.list items))
      (hitems : List.Forall₂ h.Shows items ds),
      List.Forall₂ (fun v d => ∃ hv, motive v d hv) items ds →
        motive (.ref a) (.list ds) (.list hn hitems))
    (dict : ∀ {a} {es : Entries} {fs} (hn : h.get? a = some (.dict .plain es))
      (hdistinct : es.Distinct) (hkeys : es.keys = fs.map fun f => f.1.value)
      (hvalues : List.Forall₂ h.Shows es.values (fs.map Prod.snd)),
      List.Forall₂ (fun v d => ∃ hv, motive v d hv) es.values (fs.map Prod.snd) →
        motive (.ref a) (.dict fs) (.dict hn hdistinct hkeys hvalues))
    (hv : h.Shows v d) : motive v d hv :=
  Shows.rec (motive_1 := motive)
    (motive_2 := fun vs ds _ => List.Forall₂ (fun v d => ∃ hv, motive v d hv) vs ds)
    leaf list dict .nil (fun hv _ ihv ihvs => .cons ⟨hv, ihv⟩ ihvs) hv

theorem Shows.mono (hv : h.Shows v d) (hh : h.Extends h') : h'.Shows v d := by
  induction hv using Shows.induction with
  | leaf a => exact .leaf a
  | list hn _ ih => exact .list (hh hn) (ih.imp fun _ _ ⟨_, hv⟩ => hv)
  | dict hn hdistinct hkeys _ ih => exact .dict (hh hn) hdistinct hkeys (ih.imp fun _ _ ⟨_, hv⟩ => hv)

theorem Shows.exists_atom {s : Scalar} (hs : h.Shows (.scalar s) d) :
    ∃ a : Tree.Atom, s = a.scalar := by
  generalize hv : Value.scalar s = v at hs
  cases hs with
  | leaf a => exact ⟨a, Value.scalar.inj hv⟩
  | list | dict => cases hv

theorem IsPlain.mono (hv : h.IsPlain v) (hh : h.Extends h') : h'.IsPlain v := by
  obtain ⟨d, hd⟩ := hv
  exact ⟨d, hd.mono hh⟩

theorem isAcyclic_scalar (s : Scalar) : h.IsAcyclic σ (.scalar s) :=
  .intro _ fun _ hw => absurd hw List.not_mem_nil

theorem Shows.isAcyclic (hv : h.Shows v d) : h.IsAcyclic σ v := by
  induction hv using Shows.induction with
  | leaf a => exact isAcyclic_scalar _
  | list hn _ ih =>
    have hitems := forall_mem_left ih fun _ _ _ ⟨_, hw⟩ => hw
    refine .intro _ fun w hw => hitems w ?_
    rwa [IsPart, parts_of_get? hn] at hw
  | @dict a es fs hn _ hkeys _ ih =>
    have hvalues := forall_mem_left ih fun _ _ _ ⟨_, hw⟩ => hw
    refine .intro _ fun w hw => ?_
    rw [IsPart, parts_of_get? hn] at hw
    obtain hw | hw : w ∈ es.keys ∨ w ∈ es.values := List.mem_append.1 hw
    · rw [hkeys] at hw
      obtain ⟨⟨k, _⟩, -, rfl⟩ := List.mem_map.1 hw
      cases k <;> exact isAcyclic_scalar _
    · exact hvalues w hw

/-! ## Containers of plain data -/

theorem exists_forall₂ {items : List Value} (hitems : ∀ w ∈ items, h.IsPlain w) :
    ∃ ds, List.Forall₂ h.Shows items ds := by
  induction items with
  | nil => exact ⟨[], .nil⟩
  | cons w items ih =>
    obtain ⟨⟨d, hd⟩, hitems⟩ := List.forall_mem_cons.1 hitems
    obtain ⟨ds, hds⟩ := ih hitems
    exact ⟨d :: ds, .cons hd hds⟩

theorem isPlain_list {items : List Value} (hn : h.get? a = some (.list items))
    (hitems : ∀ w ∈ items, h.IsPlain w) : h.IsPlain (.ref a) := by
  obtain ⟨ds, hds⟩ := exists_forall₂ hitems
  exact ⟨.list ds, .list hn hds⟩

theorem isPlain_dict {es : Entries} (hn : h.get? a = some (.dict .plain es))
    (hdistinct : es.Distinct)
    (hes : ∀ e ∈ es, (∃ k : PlainData.Key, e.1 = k.value) ∧ h.IsPlain e.2) :
    h.IsPlain (.ref a) := by
  obtain ⟨fs, hkeys, hvalues⟩ : ∃ fs : List (PlainData.Key × PlainData),
      es.keys = fs.map (fun f => f.1.value) ∧
        List.Forall₂ h.Shows es.values (fs.map Prod.snd) := by
    clear hn hdistinct
    induction es with
    | nil => exact ⟨[], rfl, .nil⟩
    | cons e es ih =>
      obtain ⟨⟨⟨k, hk⟩, d, hd⟩, hes⟩ := List.forall_mem_cons.1 hes
      obtain ⟨fs, hkeys, hvalues⟩ := ih hes
      exact ⟨(k, d) :: fs, congrArg₂ List.cons hk hkeys, .cons hd hvalues⟩
  exact ⟨.dict fs, .dict hn hdistinct hkeys hvalues⟩

end Heap

end Dotpath

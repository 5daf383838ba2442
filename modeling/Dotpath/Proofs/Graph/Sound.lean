import Dotpath.Proofs.Graph.Defaults

/-!
# Sound heaps

An array has the cells of its shape, and a part of an array lies within its array.  In a sound heap
this holds for all arrays and for all that nodes and classes hold (`Heap.IsSound`), and so for
everything that can be taken out of them (`IsSound.hereditary`).  A sound heap stays sound when a
look-up adds defaults (`IsSound.addsDefaults`): a value with an array in it is no key.
-/

namespace Dotpath

/-! ## Parts of arrays in values -/

mutual

/-- The parts of arrays in a value: the array, the position of the first cell, and the shape. -/
def Value.rows : Value → List (Address × Nat × List Nat)
  | .tuple items | .named _ _ items | .frozenSet items => rowsOfAll items
  | .row a offset shape => [(a, offset, shape)]
  | _ => []

/-- The parts of arrays in several values. -/
def rowsOfAll : List Value → List (Address × Nat × List Nat)
  | [] => []
  | v :: vs => v.rows ++ rowsOfAll vs

end

theorem mem_rowsOfAll {vs : List Value} {v : Value} (hv : v ∈ vs)
    {r : Address × Nat × List Nat} (hr : r ∈ v.rows) : r ∈ rowsOfAll vs := by
  induction vs with
  | nil => cases hv
  | cons w vs ih =>
    rw [rowsOfAll, List.mem_append]
    rcases List.mem_cons.1 hv with rfl | hv
    · exact .inl hr
    · exact .inr (ih hv)

namespace Heap

/-- Whether every part of an array in a value lies within its array. -/
def Covers (h : Heap) (v : Value) : Prop := ∀ r ∈ v.rows, h.HasCells r.1 r.2.1 r.2.2

/-- Whether arrays have their cells, and all that nodes and classes hold lies within them. -/
structure IsSound (σ : Schema) (h : Heap) : Prop where
  grids : ∀ a, h.Fits (.ref a)
  nodes : ∀ {a : Address} {n : Node}, h.get? a = some n → ∀ v ∈ n.values, h.Covers v
  classAttrs : ∀ c ∈ σ.classes, ∀ e ∈ c.classAttrs, h.Covers e.2
  constants : ∀ c ∈ σ.classes, ∀ p ∈ c.properties, ∀ v, p.getter = .constant v → h.Covers v

variable {σ : Schema} {h : Heap} {v w : Value}

theorem covers_scalar (s : Scalar) : h.Covers (.scalar s) := by
  rintro r ⟨⟩

theorem covers_of_mem {items : List Value} (hitems : ∀ r ∈ rowsOfAll items,
    h.HasCells r.1 r.2.1 r.2.2) (hw : w ∈ items) : h.Covers w :=
  fun r hr => hitems r (mem_rowsOfAll hw hr)

theorem covers_pair (hv : h.Covers v) (hw : h.Covers w) : h.Covers (.tuple [v, w]) := by
  intro r hr
  rw [Value.rows, rowsOfAll, rowsOfAll, rowsOfAll, List.append_nil, List.mem_append] at hr
  exact hr.elim (hv r) (hw r)

theorem covers_row {a : Address} {offset : Nat} {shape : List Nat} :
    h.Covers (.row a offset shape) ↔ h.HasCells a offset shape := by
  constructor
  · intro hv
    exact hv (a, offset, shape) (List.mem_singleton_self _)
  · intro hcells r hr
    obtain rfl := List.mem_singleton.1 hr
    exact hcells

theorem IsSound.hasCells (hh : h.IsSound σ) {a : Address} {t : ElementType} {shape : List Nat}
    {cells : List Value} {writeable : Bool} (hn : h.get? a = some (.grid t shape cells writeable)) :
    h.HasCells a 0 shape := by
  intro t' whole cells' writeable' hn'
  rw [hn] at hn'
  cases hn'
  rw [Nat.zero_add]
  exact hh.grids a hn

/-- A value whose parts lie within their arrays is an array that has its cells, or no array. -/
theorem IsSound.fits (hh : h.IsSound σ) (hv : h.Covers v) : h.Fits v := by
  cases v with
  | ref a => exact hh.grids a
  | row a offset shape => exact covers_row.1 hv
  | _ => trivial

/-- The part of an array at a position of a part of it. -/
theorem hasCells_part {a : Address} {offset n i : Nat} {inner : List Nat}
    (hcells : h.HasCells a offset (n :: inner)) (hi : i < n) :
    h.HasCells a (offset + i * cellCount inner) inner := by
  intro t whole cells writeable hn
  have hlen := hcells hn
  rw [cellCount] at hlen
  have hle : (i + 1) * cellCount inner ≤ n * cellCount inner := Nat.mul_le_mul_right _ hi
  rw [Nat.succ_mul] at hle
  omega

theorem IsSound.covers_held (hh : h.IsSound σ) {a : Address} {n : Node} (hn : h.get? a = some n)
    (hw : w ∈ n.held σ) : h.Covers w := by
  cases n with
  | object type attrs =>
    rcases List.mem_append.1 hw with hw | hw
    · exact hh.nodes hn w hw
    · obtain ⟨c, hc, hw⟩ := List.mem_flatMap.1 hw
      have hc' := Schema.mem_classes_of_mem_lineage hc
      rcases List.mem_append.1 hw with hw | hw
      · obtain ⟨e, he, rfl⟩ := List.mem_map.1 hw
        exact hh.classAttrs c hc' e he
      · obtain ⟨p, hp, hw⟩ := List.mem_filterMap.1 hw
        exact hh.constants c hc' p hp w (Getter.constant?_eq_some.1 hw)
  | _ => exact hh.nodes hn w hw

/-- What can be taken out of a value lies within its arrays if the value does. -/
theorem IsSound.hereditary (hh : h.IsSound σ) : h.Hereditary σ h.Covers where
  scalar := covers_scalar
  pair := covers_pair
  tuple := fun hv _ hw => covers_of_mem hv hw
  named := fun hv _ hw => covers_of_mem hv hw
  frozenSet := fun hv _ hw => covers_of_mem hv hw
  whole := fun hn _ => covers_row.2 (hh.hasCells hn)
  part := fun hrow hi => covers_row.2 (hasCells_part (covers_row.1 hrow) hi)
  cell := by
    intro a offset shape _ w hw
    unfold gridCells at hw
    split at hw
    · next hn => exact hh.nodes hn w hw
    · cases hw
  held := fun _ hn _ hw => hh.covers_held hn hw
  shown := by
    rintro a n _ _ d _ r ⟨⟩

/-! ## Added defaults -/

namespace AddsDefaults

variable {h' : Heap} {K : Value → Prop}

theorem get?_grid_iff (hadds : h.AddsDefaults K h') {a : Address} {t : ElementType}
    {shape : List Nat} {cells : List Value} {writeable : Bool} :
    h'.get? a = some (.grid t shape cells writeable) ↔
      h.get? a = some (.grid t shape cells writeable) :=
  ⟨fun hn => hadds.get?_of_later hn (by rintro ⟨⟩) (by rintro _ ⟨⟩),
    fun hn => hadds.get? hn (by rintro _ ⟨⟩)⟩

theorem hasCells_iff (hadds : h.AddsDefaults K h') {a : Address} {offset : Nat}
    {shape : List Nat} : h'.HasCells a offset shape ↔ h.HasCells a offset shape :=
  forall₄_congr fun _ _ _ _ => by rw [hadds.get?_grid_iff]

theorem covers_iff (hadds : h.AddsDefaults K h') : h'.Covers v ↔ h.Covers v :=
  forall₂_congr fun _ _ => hadds.hasCells_iff

end AddsDefaults

theorem IsSound.addsDefaults {h' : Heap} {K : Value → Prop} (hh : h.IsSound σ)
    (hK : ∀ k, K k → k.rows = []) (hadds : h.AddsDefaults K h') : h'.IsSound σ := by
  refine ⟨fun a t shape cells writeable hn => hh.grids a (hadds.get?_grid_iff.1 hn), ?_,
    fun c hc e he => hadds.covers_iff.2 (hh.classAttrs c hc e he),
    fun c hc p hp v hv => hadds.covers_iff.2 (hh.constants c hc p hp v hv)⟩
  -- What the nodes hold stays within its arrays with each default that is added.
  induction hadds with
  | refl => exact hh.nodes
  | @add h' d es k hbefore hd hk hk' ih =>
    intro a n hn v hv
    have hadd : h'.AddsDefaults K (h'.addDefault d k) := .add .refl hd hk hk'
    rw [hadd.covers_iff]
    by_cases had : a = d
    · subst had
      cases hn.symm.trans (get?_addDefault_self hd k)
      rw [Entries.put_of_find?_eq_none hk, Node.values, List.map_append, List.map_append] at hv
      rcases List.mem_append.1 hv with hv | hv <;> rcases List.mem_append.1 hv with hv | hv
      · exact ih hd v (List.mem_append_left _ hv)
      · obtain rfl := List.mem_singleton.1 hv
        rw [Covers, hK v hk']
        rintro r ⟨⟩
      · exact ih hd v (List.mem_append_right _ hv)
      · obtain rfl := List.mem_singleton.1 hv
        rintro r ⟨⟩
    · by_cases hsize : a = h'.nodes.size
      · subst hsize
        cases hn.symm.trans (get?_addDefault_new hd k)
        cases hv
      · rw [get?_addDefault_of_ne hd k had hsize] at hn
        exact ih hn v hv

end Heap

end Dotpath

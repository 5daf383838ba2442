import Dotpath.Proofs.Graph.Acyclic

/-!
# Values with a text

Little keeps an acyclic value from having a text: an integer with too many digits, or a field of a
record that is not set.  Where neither lies in a value (`Heap.Prints`), the bound of the recursion is
enough for its text (`Prints.succeeds_text`).
-/

namespace Dotpath

/-- Whether a computation has a result. -/
abbrev Succeeds {α : Type} (x : Except Fault α) : Prop := EveryFault (fun _ => False) x

theorem Succeeds.exists_ok {α : Type} {x : Except Fault α} (hx : Succeeds x) :
    ∃ a, x = .ok a := by
  cases x with
  | ok a => exact ⟨a, rfl⟩
  | error f => exact (hx f rfl).elim

theorem Scalar.isSome_text? {s : Scalar} (hs : s.quoted?.isSome = true) :
    s.text?.isSome = true := by
  cases s with
  | machine type v =>
    rw [Scalar.text?]
    cases hv : v.text? with
    | some t => rfl
    | none =>
      cases v with
      | bool b => cases hv
      | _ => simp [Scalar.quoted?, hv] at hs
  | int n => exact hs
  | _ => rfl

theorem succeeds_scalarText {s : Scalar} (hs : s.text?.isSome = true) :
    Succeeds (scalarText s) := by
  obtain ⟨t, ht⟩ := Option.isSome_iff_exists.1 hs
  rw [scalarText, ht]
  exact .ok t

theorem succeeds_scalarQuoted {s : Scalar} (hs : s.quoted?.isSome = true) :
    Succeeds (scalarQuoted s) := by
  obtain ⟨t, ht⟩ := Option.isSome_iff_exists.1 hs
  rw [scalarQuoted, ht]
  exact .ok t

/-- Whether a node is a collection that shows its members. -/
def Node.isCollection : Node → Bool
  | .list _ | .deque _ | .set _ | .dict .. | .grid .. => true
  | _ => false

namespace Heap

/-- Whether a record is at an address, with a value stored for each of its fields. -/
structure HoldsRecord (σ : Schema) (h : Heap) (a : Address) (type : String)
    (attrs : List (String × Value)) : Prop where
  node : h.get? a = some (.object type attrs)
  model : σ.isModel type = false
  record : σ.isRecord type = true
  filled : ∀ f ∈ σ.fields type, ∃ w, attrs.lookup f.name = some w
  stored : ∀ f ∈ σ.fields type, ∀ p, σ.descriptor? type f.name ≠ some (.property p)

/-- Whether all that shows in the text of a value has a text. -/
inductive Prints (σ : Schema) (h : Heap) : Value → Prop
  | scalar {s : Scalar} (hs : s.quoted?.isSome = true) : Prints σ h (.scalar s)
  | tuple {items : List Value} (hitems : ∀ w ∈ items, Prints σ h w) : Prints σ h (.tuple items)
  | named {type : String} {fields : List String} {items : List Value}
      (hitems : ∀ w ∈ items, Prints σ h w) : Prints σ h (.named type fields items)
  | frozenSet {items : List Value} (hitems : ∀ w ∈ items, Prints σ h w) :
      Prints σ h (.frozenSet items)
  | range (start stop step : Int) : Prints σ h (.range start stop step)
  | row {a offset : Nat} {shape : List Nat} {t : ElementType} {whole : List Nat}
      {cells : List Value} {writeable : Bool} (hn : h.get? a = some (.grid t whole cells writeable))
      (hcells : ∀ w ∈ cells, Prints σ h w) : Prints σ h (.row a offset shape)
  | collection {a : Address} {node : Node} (hn : h.get? a = some node)
      (hkind : node.isCollection = true) (hvalues : ∀ w ∈ node.values, Prints σ h w) :
      Prints σ h (.ref a)
  | record {a : Address} {type : String} {attrs : List (String × Value)}
      (hn : h.HoldsRecord σ a type attrs)
      (hfields : ∀ f ∈ σ.fields type, ∀ w, attrs.lookup f.name = some w → Prints σ h w) :
      Prints σ h (.ref a)

variable {σ : Schema} {h h' : Heap} {v w : Value} {a : Address} {type : String}
  {attrs : List (String × Value)} {fuel n : Nat} {around : List Address}

theorem parts_of_isCollection {node : Node} (hn : h.get? a = some node)
    (hkind : node.isCollection = true) : h.parts σ (.ref a) = node.values := by
  rw [parts_of_get? hn]
  cases node with
  | object => cases hkind
  | _ => rfl

namespace HoldsRecord

theorem mono (hr : h.HoldsRecord σ a type attrs) (hh : h.Extends h') :
    h'.HoldsRecord σ a type attrs :=
  { hr with node := hh hr.node }

theorem mem_parts (hr : h.HoldsRecord σ a type attrs) :
    w ∈ h.parts σ (.ref a) ↔ ∃ f ∈ σ.fields type, attrs.lookup f.name = some w := by
  rw [parts_of_get? hr.node]
  exact List.mem_filterMap

/-- The attribute of a field is what is stored for it. -/
theorem attributeWith (hr : h.HoldsRecord σ a type attrs) {f : FieldDef} (hf : f ∈ σ.fields type)
    (hw : attrs.lookup f.name = some w) : h.attributeWith σ (fuel + 1) a f.name = .ok w := by
  rw [Heap.attributeWith, hr.node]
  simp only [hw]
  cases hd : σ.descriptor? type f.name with
  | none => rfl
  | some d =>
    cases d with
    | property p => exact absurd hd (hr.stored f hf p)
    | slot | value => rfl

end HoldsRecord

namespace Prints

theorem mono (hv : h.Prints σ v) (hh : h.Extends h') : h'.Prints σ v := by
  induction hv with
  | scalar hs => exact .scalar hs
  | tuple _ ih => exact .tuple ih
  | named _ ih => exact .named ih
  | frozenSet _ ih => exact .frozenSet ih
  | range start stop step => exact .range start stop step
  | row hn _ ih => exact .row (hh hn) ih
  | collection hn hkind _ ih => exact .collection (hh hn) hkind ih
  | record hn _ ih => exact .record (hn.mono hh) ih

theorem isAcyclic (hv : h.Prints σ v) : h.IsAcyclic σ v := by
  induction hv with
  | scalar | range => exact .intro _ fun w hw => absurd hw List.not_mem_nil
  | tuple _ ih | named _ ih | frozenSet _ ih => exact .intro _ ih
  | row hn _ ih =>
    refine .intro _ fun w hw => ?_
    rw [List.mem_singleton.1 hw]
    refine .intro _ fun w hw => ih w ?_
    rwa [IsPart, parts_of_isCollection hn rfl] at hw
  | collection hn hkind _ ih =>
    refine .intro _ fun w hw => ih w ?_
    rwa [IsPart, parts_of_isCollection hn hkind] at hw
  | record hr _ ih =>
    refine .intro _ fun w hw => ?_
    obtain ⟨f, hf, hw⟩ := hr.mem_parts.1 hw
    exact ih f hf w hw

end Prints

/-! ## Enough room for the text -/

/-- Whether some room is enough for the quoted text of a value, and a little more for its text. -/
structure PrintsWithin (σ : Schema) (h : Heap) (n : Nat) (v : Value) : Prop where
  quoted : ∀ {fuel}, n ≤ fuel → ∀ around, Succeeds (h.quotedWith σ fuel around v)
  text : ∀ {fuel}, n < fuel → ∀ around, Succeeds (h.textWith σ fuel around v)

namespace PrintsWithin

theorem mono {m : Nat} (hv : h.PrintsWithin σ n v) (hnm : n ≤ m) : h.PrintsWithin σ m v where
  quoted := fun hm => hv.quoted (Nat.le_trans hnm hm)
  text := fun hm => hv.text (Nat.lt_of_le_of_lt hnm hm)

theorem all {items : List Value} (hitems : ∀ w ∈ items, h.PrintsWithin σ n w) (hn : n ≤ fuel)
    (around : List Address) : Succeeds (items.mapM (h.quotedWith σ fuel around)) :=
  .mapM fun w hw => (hitems w hw).quoted hn around

/-- The text of a value that is no scalar, no array and no node is its quoted text. -/
theorem of_quoted (hscalar : ∀ s, v ≠ .scalar s) (hrow : ∀ a offset shape, v ≠ .row a offset shape)
    (href : ∀ a, v ≠ .ref a)
    (hquoted : ∀ {fuel}, n ≤ fuel → ∀ around, Succeeds (h.quotedWith σ (fuel + 1) around v)) :
    h.PrintsWithin σ (n + 1) v := by
  have hsucc : ∀ {fuel}, n + 1 ≤ fuel → ∀ around, Succeeds (h.quotedWith σ fuel around v) := by
    intro fuel hfuel around
    obtain ⟨k, rfl⟩ := Nat.exists_eq_add_of_lt hfuel
    exact hquoted (Nat.le_add_right n k) around
  refine ⟨hsucc, fun {fuel} hfuel around => ?_⟩
  obtain ⟨k, rfl⟩ := Nat.exists_eq_add_of_lt hfuel
  rw [textWith]
  · exact hsucc (Nat.le_add_right _ k) around
  · exact hscalar
  · exact hrow
  · exact href

theorem scalar {s : Scalar} (hs : s.quoted?.isSome = true) (n : Nat) :
    h.PrintsWithin σ (n + 1) (.scalar s) where
  quoted := fun {fuel} hn around => by
    obtain ⟨k, rfl⟩ := Nat.exists_eq_add_of_lt hn
    rw [quotedWith]
    exact succeeds_scalarQuoted hs
  text := fun {fuel} hn around => by
    obtain ⟨k, rfl⟩ := Nat.exists_eq_add_of_lt hn
    rw [textWith]
    exact succeeds_scalarText (Scalar.isSome_text? hs)

/-- The text of an array is that of its only cell, or shows the quoted texts of all cells. -/
theorem grid {t : ElementType} {whole : List Nat} {cells : List Value} {writeable quoted : Bool}
    (hn : h.get? a = some (.grid t whole cells writeable))
    (hcells : ∀ w ∈ cells, h.PrintsWithin σ n w) (hfuel : n < fuel)
    (htext : quoted = false → n + 1 < fuel) (around : List Address) (offset : Nat)
    (shape : List Nat) : Succeeds (h.gridText σ fuel around quoted a offset shape) := by
  obtain ⟨k, rfl⟩ := Nat.exists_eq_add_of_lt hfuel
  have hshown : ∀ w ∈ (cells.drop offset).take (cellCount shape), h.PrintsWithin σ n w :=
    fun w hw => hcells w (List.mem_of_mem_drop (List.mem_of_mem_take hw))
  have hall := all hshown (Nat.le_of_lt_succ hfuel) around
  rw [gridText, hn]
  dsimp only
  split
  · next hsingle =>
    have hquoted : quoted = false := by simpa using (Bool.and_eq_true_iff.1 hsingle).2
    split
    · next w hfirst =>
      exact (hshown w (List.mem_of_head? hfirst)).text (Nat.lt_of_succ_lt_succ (htext hquoted)) around
    · exact .ok _
  · exact .ite (.bind (.ok _) fun _ => .ite (.ok _) (.ok _))
      (.bind hall fun _ => .bind (.ok _) fun _ => .ite (.ok _) (.ok _))

theorem row {t : ElementType} {whole : List Nat} {cells : List Value} {writeable : Bool}
    (hn : h.get? a = some (.grid t whole cells writeable))
    (hcells : ∀ w ∈ cells, h.PrintsWithin σ n w) (offset : Nat) (shape : List Nat) :
    h.PrintsWithin σ (n + 2) (.row a offset shape) where
  quoted := fun {fuel} hfuel around => by
    obtain ⟨k, rfl⟩ := Nat.exists_eq_add_of_lt hfuel
    rw [quotedWith]
    exact grid hn hcells (Nat.lt_of_succ_lt_succ hfuel) (by simp) around offset shape
  text := fun {fuel} hfuel around => by
    obtain ⟨k, rfl⟩ := Nat.exists_eq_add_of_lt hfuel
    rw [textWith]
    have hfuel := Nat.lt_of_succ_lt_succ hfuel
    exact grid hn hcells (Nat.lt_of_succ_lt hfuel) (fun _ => hfuel) around offset shape

theorem quoted_collection {node : Node} (hn : h.get? a = some node)
    (hkind : node.isCollection = true) (hvalues : ∀ w ∈ node.values, h.PrintsWithin σ n w)
    (hfuel : n + 1 < fuel) (around : List Address) :
    Succeeds (h.quotedWith σ fuel around (.ref a)) := by
  obtain ⟨k, rfl⟩ := Nat.exists_eq_add_of_lt hfuel
  have hfuel := Nat.lt_of_succ_lt_succ hfuel
  have hall {ws : List Value} (hws : ∀ w ∈ ws, w ∈ node.values) :=
    all (fun w hw => hvalues w (hws w hw)) (Nat.le_of_lt hfuel) (a :: around)
  rw [quotedWith, hn]
  refine .ite (.ok _) ?_
  cases node with
  | list items | deque items | set items => exact .bind (hall fun w hw => hw) fun _ => .ok _
  | dict type es =>
    have hkeys := hall fun w (hw : w ∈ es.map (·.1)) => List.mem_append_left _ hw
    have hes := hall fun w (hw : w ∈ es.map (·.2)) => List.mem_append_right _ hw
    cases type with
    | plain | ordered => exact .bind hkeys fun _ => .bind hes fun _ => .ok _
    | defaulting => exact .bind (.bind hkeys fun _ => .bind hes fun _ => .ok _) fun _ => .ok _
  | grid t whole cells writeable => exact grid hn hvalues hfuel (by simp) around 0 whole
  | _ => cases hkind

theorem collection {node : Node} (hn : h.get? a = some node) (hkind : node.isCollection = true)
    (hvalues : ∀ w ∈ node.values, h.PrintsWithin σ n w) : h.PrintsWithin σ (n + 2) (.ref a) where
  quoted := quoted_collection hn hkind hvalues
  text := fun {fuel} hfuel around => by
    obtain ⟨k, rfl⟩ := Nat.exists_eq_add_of_lt hfuel
    have hfuel := Nat.lt_of_succ_lt_succ hfuel
    rw [textWith, hn]
    cases node with
    | grid t whole cells writeable =>
      exact grid hn hvalues (Nat.lt_of_succ_lt hfuel) (fun _ => hfuel) around 0 whole
    | list | deque | set | dict => exact quoted_collection hn hkind hvalues hfuel around
    | _ => cases hkind

theorem quoted_record (hr : h.HoldsRecord σ a type attrs)
    (hfields : ∀ f ∈ σ.fields type, ∀ w, attrs.lookup f.name = some w → h.PrintsWithin σ n w)
    (hfuel : n + 1 < fuel) (around : List Address) :
    Succeeds (h.quotedWith σ fuel around (.ref a)) := by
  obtain ⟨fuel, rfl⟩ := Nat.exists_eq_succ_of_ne_zero (Nat.ne_zero_of_lt hfuel)
  have hfuel := Nat.lt_of_succ_lt_succ hfuel
  rw [quotedWith, hr.node]
  refine .ite (.ok _) ?_
  dsimp only
  rw [hr.record, Bool.true_or, if_pos rfl, Schema.textNames, hr.model]
  refine .bind (.mapM fun m hm => ?_) fun _ => .ok _
  obtain ⟨f, hf, rfl⟩ := List.mem_map.1 hm
  obtain ⟨w, hw⟩ := hr.filled f hf
  obtain ⟨fuel, rfl⟩ := Nat.exists_eq_succ_of_ne_zero (Nat.ne_zero_of_lt hfuel)
  rw [hr.attributeWith hf hw]
  exact (hfields f hf w hw).quoted (Nat.le_of_lt hfuel) (a :: around)

theorem record (hr : h.HoldsRecord σ a type attrs)
    (hfields : ∀ f ∈ σ.fields type, ∀ w, attrs.lookup f.name = some w → h.PrintsWithin σ n w) :
    h.PrintsWithin σ (n + 2) (.ref a) where
  quoted := quoted_record hr hfields
  text := fun {fuel} hfuel around => by
    obtain ⟨k, rfl⟩ := Nat.exists_eq_add_of_lt hfuel
    rw [textWith, hr.node]
    dsimp only
    cases σ.fixedText? type with
    | some t => exact .ok t
    | none =>
      dsimp only
      rw [hr.model]
      exact quoted_record hr hfields (Nat.lt_of_succ_lt_succ hfuel) around

end PrintsWithin

/-- The way down from a value is the only room that its text needs. -/
theorem Prints.printsWithin (hv : h.Prints σ v) (hn : h.EndsWithin σ n v) :
    h.PrintsWithin σ n v := by
  induction hv generalizing n with
  | scalar hs =>
    obtain ⟨n, rfl, -⟩ := hn.exists_succ
    exact .scalar hs n
  | tuple _ ih | named _ ih | frozenSet _ ih =>
    obtain ⟨n, rfl, hitems⟩ := hn.exists_succ
    refine .of_quoted (by simp) (by simp) (by simp) fun hfuel around => ?_
    rw [quotedWith]
    exact .bind (PrintsWithin.all (fun w hw => ih w hw (hitems w hw)) hfuel around) fun _ => .ok _
  | range start stop step =>
    obtain ⟨n, rfl, -⟩ := hn.exists_succ
    refine .of_quoted (by simp) (by simp) (by simp) fun _ around => ?_
    rw [quotedWith]
    exact .ok _
  | @row a offset shape _ _ _ _ hgrid _ ih =>
    obtain ⟨n, rfl, hwhole⟩ := hn.exists_succ
    obtain ⟨n, rfl, hcells⟩ := (hwhole _ (List.mem_singleton_self _)).of_node
    rw [parts_of_isCollection hgrid rfl] at hcells
    have hrow := PrintsWithin.row hgrid (fun w hw => ih w hw (hcells w hw)) offset shape
    exact hrow.mono (Nat.le_succ _)
  | collection hn' hkind _ ih =>
    obtain ⟨n, rfl, hvalues⟩ := hn.of_node
    rw [parts_of_isCollection hn' hkind] at hvalues
    exact .collection hn' hkind fun w hw => ih w hw (hvalues w hw)
  | record hr _ ih =>
    obtain ⟨n, rfl, hvalues⟩ := hn.of_node
    exact .record hr fun f hf w hw => ih f hf w hw (hvalues w (hr.mem_parts.2 ⟨f, hf, hw⟩))

/-- A value in which everything prints has a text. -/
theorem Prints.succeeds_text (hv : h.Prints σ v) : Succeeds (h.text σ v) := by
  obtain ⟨n, hn, hends⟩ := hv.isAcyclic.endsWithin_fuel
  exact (hv.printsWithin hends).text hn []

theorem Prints.succeeds_quoted (hv : h.Prints σ v) : Succeeds (h.quoted σ v) := by
  obtain ⟨n, hn, hends⟩ := hv.isAcyclic.endsWithin_fuel
  exact (hv.printsWithin hends).quoted (Nat.le_of_lt hn) []

end Heap

end Dotpath

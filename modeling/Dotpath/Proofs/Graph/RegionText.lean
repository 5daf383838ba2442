import Dotpath.Proofs.Graph.Region

/-!
# Texts within a region

The text of a value depends on nothing but what can be reached from it.  Two heaps that are the same
within a region give the same texts and the same attributes there, for every bound of the recursion
(`SameWithin.alikeUpTo`), and the bounds are the same too (`SameWithin.fuel`).  So a value of the
region has one text in both heaps, and its properties have the same values (`SameWithin.text`,
`SameWithin.readProperty`).
-/

namespace Dotpath

namespace Heap

variable {σ : Schema} {S : Address → Prop} {h h' : Heap} {fuel : Nat} {a : Address} {v : Value}

/-- Whether two heaps give the same attributes and texts in a region, up to a bound of the
recursion. -/
structure AlikeUpTo (σ : Schema) (S : Address → Prop) (h h' : Heap) (fuel : Nat) : Prop where
  attributes : ∀ a, S a → ∀ name, attributeWith σ h' fuel a name = attributeWith σ h fuel a name
  computed : ∀ a, S a → ∀ getter, compute σ h' fuel a getter = compute σ h fuel a getter
  texts : ∀ around v, v.LiesIn S → textWith σ h' fuel around v = textWith σ h fuel around v
  quoted : ∀ around v, v.LiesIn S → quotedWith σ h' fuel around v = quotedWith σ h fuel around v
  grids : ∀ around quoted a offset shape, S a →
    gridText σ h' fuel around quoted a offset shape = gridText σ h fuel around quoted a offset shape

namespace AlikeUpTo

/-! ## One more step of the recursion -/

theorem attribute_succ (hS : SameWithin σ S h h') (ih : AlikeUpTo σ S h h' fuel) (ha : S a)
    (name : String) :
    attributeWith σ h' (fuel + 1) a name = attributeWith σ h (fuel + 1) a name := by
  rw [attributeWith, attributeWith, hS.nodes ha]
  cases h.get? a with
  | none => rfl
  | some n =>
    cases n with
    | object type attrs =>
      dsimp only
      cases σ.descriptor? type name with
      | none => rfl
      | some d =>
        cases d with
        | property p => exact ih.computed a ha p.getter
        | slot | value => rfl
    | _ => rfl

theorem compute_zero (getter : Getter) :
    Heap.compute σ h' 0 a getter = Heap.compute σ h 0 a getter := by
  cases getter <;> rw [Heap.compute, Heap.compute]

theorem compute_succ (hS : SameWithin σ S h h') (ih : AlikeUpTo σ S h h' fuel) (ha : S a)
    (getter : Getter) :
    Heap.compute σ h' (fuel + 1) a getter = Heap.compute σ h (fuel + 1) a getter := by
  have hattribute : ∀ name v, Heap.attributeWith σ h fuel a name = .ok v → v.LiesIn S :=
    fun _ _ hv => hS.hereditary.attributeWith (liesIn_ref.2 ha) hv
  cases getter with
  | constant | raises => rw [Heap.compute, Heap.compute]
  | «alias» n => rw [Heap.compute, Heap.compute, ih.attributes a ha]
  | length n =>
    rw [Heap.compute, Heap.compute, ih.attributes a ha]
    refine bind_congr_ok fun v hv => ?_
    rw [hS.length (hattribute n v hv)]
  | concat parts =>
    rw [Heap.compute, Heap.compute]
    congr 1
    refine mapM_congr fun part _ => ?_
    cases part with
    | inl t => rfl
    | inr n =>
      dsimp only
      rw [ih.attributes a ha]
      exact bind_congr_ok fun v hv => ih.texts [] v (hattribute n v hv)

theorem all_quoted (ih : AlikeUpTo σ S h h' fuel) (around : List Address) {vs : List Value}
    (hvs : ∀ w ∈ vs, w.LiesIn S) :
    vs.mapM (quotedWith σ h' fuel around) = vs.mapM (quotedWith σ h fuel around) :=
  mapM_congr fun w hw => ih.quoted around w (hvs w hw)

/-- The values of some attributes, quoted one after the other. -/
theorem attributes_quoted (hS : SameWithin σ S h h') (ih : AlikeUpTo σ S h h' fuel) (ha : S a)
    (around : List Address) (names : List String) :
    (names.mapM fun n => do
        let v ← attributeWith σ h' fuel a n
        quotedWith σ h' fuel around v) =
      names.mapM (fun n => do
        let v ← attributeWith σ h fuel a n
        quotedWith σ h fuel around v) := by
  refine mapM_congr fun n _ => ?_
  rw [ih.attributes a ha]
  exact bind_congr_ok fun v hv =>
    ih.quoted around v (hS.hereditary.attributeWith (liesIn_ref.2 ha) hv)

theorem text_succ (hS : SameWithin σ S h h') (ih : AlikeUpTo σ S h h' fuel) (around : List Address)
    (hv : v.LiesIn S) : textWith σ h' (fuel + 1) around v = textWith σ h (fuel + 1) around v := by
  cases v with
  | scalar s => rw [textWith, textWith]
  | row a offset shape =>
    rw [textWith, textWith]
    exact ih.grids around false a offset shape (liesIn_row.1 hv)
  | ref a =>
    have ha := liesIn_ref.1 hv
    have hquoted := ih.quoted around (.ref a) hv
    rw [textWith, textWith, hS.nodes ha]
    cases hn : h.get? a with
    | none => exact hquoted
    | some n =>
      cases n with
      | object type attrs =>
        dsimp only
        rw [ih.attributes_quoted hS ha, hquoted]
      | grid t shape => exact ih.grids around false a 0 shape ha
      | proxy d =>
        have hd : S d := hS.shown ha hn (List.mem_singleton_self d)
        exact ih.texts around (.ref d) (liesIn_ref.2 hd)
      | _ => exact hquoted
  | tuple | named | frozenSet | range =>
    rw [textWith, textWith]
    · exact ih.quoted around _ hv
    all_goals simp

/-- The quoted text of a node follows from those of the values that it holds. -/
theorem quoted_node (hS : SameWithin σ S h h') (ih : AlikeUpTo σ S h h' fuel)
    (around : List Address) (ha : S a) :
    quotedWith σ h' (fuel + 1) around (.ref a) = quotedWith σ h (fuel + 1) around (.ref a) := by
  rw [quotedWith, quotedWith, hS.nodes ha]
  cases hn : h.get? a with
  | none => rfl
  | some n =>
    have hheld : ∀ w ∈ n.held σ, w.LiesIn S := fun w hw => hS.held ha hn hw
    have hall := fun (vs : List Value) (hvs : ∀ w ∈ vs, w.LiesIn S) => ih.all_quoted (a :: around) hvs
    dsimp only
    congr 1
    cases n with
    | list items | deque items | set items =>
      dsimp only
      rw [hall items hheld]
    | dict type es =>
      have hkeys := hall (es.map (·.1)) fun w hw => hheld w (List.mem_append_left _ hw)
      have hvalues := hall (es.map (·.2)) fun w hw => hheld w (List.mem_append_right _ hw)
      cases type with
      | plain | ordered | defaulting =>
        dsimp only
        rw [hkeys, hvalues]
    | view part d =>
      have hd : S d := hS.shown ha hn (List.mem_singleton_self d)
      have hmembers : ∀ w ∈ h.viewMembers part d, w.LiesIn S :=
        fun w hw => hS.hereditary.viewMembers (liesIn_ref.2 hd) hw
      dsimp only
      rw [hS.viewMembers hd, hall _ hmembers]
    | proxy d =>
      have hd : S d := hS.shown ha hn (List.mem_singleton_self d)
      dsimp only
      rw [ih.quoted around (.ref d) (liesIn_ref.2 hd)]
    | chain ds =>
      have hds : ∀ w ∈ ds.map Value.ref, w.LiesIn S := by
        rintro w hw
        obtain ⟨d, hd, rfl⟩ := List.mem_map.1 hw
        exact liesIn_ref.2 (hS.shown ha hn hd)
      dsimp only
      rw [hall _ hds]
    | grid t shape => exact ih.grids around true a 0 shape ha
    | object type attrs =>
      dsimp only
      rw [ih.attributes_quoted hS ha]
    | cells code items =>
      split <;> simp_all
    | userMap | seqMap | userSeq | byteArray => rfl

theorem quoted_succ (hS : SameWithin σ S h h') (ih : AlikeUpTo σ S h h' fuel)
    (around : List Address) (hv : v.LiesIn S) :
    quotedWith σ h' (fuel + 1) around v = quotedWith σ h (fuel + 1) around v := by
  cases v with
  | scalar s => rw [quotedWith, quotedWith]
  | tuple items | frozenSet items =>
    rw [quotedWith, quotedWith, ih.all_quoted around (liesIn_items.1 hv)]
  | named type fields items =>
    rw [quotedWith, quotedWith, ih.all_quoted around (liesIn_items.1 hv)]
  | range start stop step => rw [quotedWith, quotedWith]
  | row a offset shape =>
    rw [quotedWith, quotedWith]
    exact ih.grids around true a offset shape (liesIn_row.1 hv)
  | ref a => exact ih.quoted_node hS around (liesIn_ref.1 hv)

theorem grid_succ (hS : SameWithin σ S h h') (ih : AlikeUpTo σ S h h' fuel)
    (around : List Address) (quoted : Bool) (ha : S a) (offset : Nat) (shape : List Nat) :
    gridText σ h' (fuel + 1) around quoted a offset shape =
      gridText σ h (fuel + 1) around quoted a offset shape := by
  rw [gridText, gridText, hS.nodes ha]
  cases hn : h.get? a with
  | none => rfl
  | some n =>
    cases n with
    | grid t whole items writeable =>
      have hcells : ∀ w ∈ (items.drop offset).take (cellCount shape), w.LiesIn S :=
        fun w hw => hS.held ha hn (List.mem_of_mem_drop (List.mem_of_mem_take hw))
      dsimp only
      rw [ih.all_quoted around hcells]
      congr 1
      cases hfirst : ((items.drop offset).take (cellCount shape)).head? with
      | none => rfl
      | some w => exact ih.texts around w (hcells w (List.mem_of_head? hfirst))
    | _ => rfl

end AlikeUpTo

/-- Two heaps that are the same within a region give the same attributes and texts there. -/
theorem SameWithin.alikeUpTo (hS : SameWithin σ S h h') (fuel : Nat) :
    AlikeUpTo σ S h h' fuel := by
  induction fuel with
  | zero =>
    constructor
    · intro a _ name
      rw [attributeWith, attributeWith]
    · exact fun a _ getter => AlikeUpTo.compute_zero getter
    · intro around v _
      rw [textWith, textWith]
    · intro around v _
      rw [quotedWith, quotedWith]
    · intro around quoted a offset shape _
      rw [gridText, gridText]
  | succ fuel ih =>
    exact ⟨fun _ ha => ih.attribute_succ hS ha, fun _ ha => ih.compute_succ hS ha,
      fun around _ => ih.text_succ hS around, fun around _ => ih.quoted_succ hS around,
      fun around quoted _ offset shape ha => ih.grid_succ hS around quoted ha offset shape⟩

namespace SameWithin

/-! ## Texts and properties -/

theorem text (hS : SameWithin σ S h h') (hv : v.LiesIn S) : h'.text σ v = h.text σ v := by
  rw [Heap.text, Heap.text, hS.fuel hv]
  exact (hS.alikeUpTo _).texts [] v hv

theorem object? (hS : SameWithin σ S h h') (hv : v.LiesIn S) : h'.object? v = h.object? v := by
  cases v with
  | ref a => rw [Heap.object?, Heap.object?, hS.nodes (liesIn_ref.1 hv)]
  | _ => rfl

theorem attributeOf (hS : SameWithin σ S h h') (ha : S a) (name : String) :
    h'.attributeOf σ a name = h.attributeOf σ a name := by
  rw [Heap.attributeOf, Heap.attributeOf, hS.fuel (liesIn_ref.2 ha)]
  exact (hS.alikeUpTo _).attributes a ha name

/-- The text of a value in a message. -/
theorem format (hS : SameWithin σ S h h') (hv : v.LiesIn S) : h'.format σ v = h.format σ v := by
  rw [Heap.format, Heap.format, hS.object? hv, hS.text hv]
  cases hobj : h.object? v with
  | none => rfl
  | some o =>
    obtain ⟨a, type, attrs⟩ := o
    obtain ⟨rfl, -⟩ := get?_of_object? hobj
    dsimp only
    rw [hS.attributeOf (liesIn_ref.1 hv)]
    refine if_congr Iff.rfl (bind_congr_ok fun way hway => ?_) rfl
    rw [hS.typeName (hS.hereditary.attributeWith hv hway)]

theorem answeredNames (hS : SameWithin σ S h h') (ha : S a) (name : String) :
    h'.answeredNames σ a name = h.answeredNames σ a name := by
  rw [Heap.answeredNames, Heap.answeredNames, hS.attributeOf ha]
  cases hd : h.attributeOf σ a name with
  | error f => rfl
  | ok v =>
    have hv : v.LiesIn S := hS.hereditary.attributeWith (liesIn_ref.2 ha) hd
    cases v with
    | ref d =>
      have hd : S d := liesIn_ref.1 hv
      dsimp only
      rw [hS.nodes hd]
      cases hn : h.get? d with
      | none => rfl
      | some n =>
        cases n with
        | dict type es =>
          refine mapM_congr fun k hk => ?_
          have hk : k.LiesIn S := hS.held hd hn (List.mem_append_left _ hk)
          cases k with
          | scalar s => rfl
          | _ =>
            dsimp only
            rw [hS.faultTypeName hk]
        | _ => rfl
    | _ => rfl

theorem propertiesOf (hS : SameWithin σ S h h') (hv : v.LiesIn S) :
    h'.propertiesOf σ v = h.propertiesOf σ v := by
  rw [Heap.propertiesOf, Heap.propertiesOf, hS.object? hv]
  cases hobj : h.object? v with
  | none => rfl
  | some o =>
    obtain ⟨a, type, attrs⟩ := o
    obtain ⟨rfl, -⟩ := get?_of_object? hobj
    dsimp only [namesUnder]
    rw [hS.answeredNames (liesIn_ref.1 hv), hS.answeredNames (liesIn_ref.1 hv)]

theorem readProperty (hS : SameWithin σ S h h') (hv : v.LiesIn S) (name : Segment) :
    h'.readProperty σ v name = h.readProperty σ v name := by
  unfold Heap.readProperty
  rw [hS.propertiesOf hv, hS.object? hv, hS.typeName hv]
  cases hobj : h.object? v with
  | none => rfl
  | some o =>
    obtain ⟨a, type, attrs⟩ := o
    obtain ⟨rfl, -⟩ := get?_of_object? hobj
    have ha : S a := liesIn_ref.1 hv
    refine bind_congr_ok fun ps _ => ?_
    cases ps.find? fun p => some p.name == name with
    | none => rfl
    | some p => exact if_congr Iff.rfl rfl (hS.attributeOf ha p.name)

end SameWithin

end Heap

end Dotpath

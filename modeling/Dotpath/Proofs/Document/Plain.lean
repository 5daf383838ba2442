import Dotpath.Proofs.Document.Conversion
import Dotpath.Proofs.Document.Convertible
import Dotpath.Proofs.Document.Copy
import Dotpath.Proofs.Schema.Declared

/-!
# Conversion to plain data

What has a plain form becomes plain data at every depth, and plain data stays as it is
(`Convertible.becomesPlain`).  The cells of an array come out as they are, so an array becomes plain
data exactly if its cells are plain data already (`isPlain_array_iff`).

`Simplifies` says of a part that its conversion succeeds on every heap to which nodes have been added;
the containers are assembled from that.
-/

namespace Dotpath

namespace Heap

variable {σ : Schema} {h h' H : Heap} {v w : Value} {a : Address} {r : Bool} {d : PlainData}

/-! ## Conversions of parts -/

/-- Whether a value of a later heap is plain data, and the same data as a value that was plain data
before. -/
structure IsPlainCopy (h H : Heap) (v w : Value) : Prop where
  isPlain : H.IsPlain w
  same : ∀ d, h.Shows v d → H.Shows w d

theorem IsPlainCopy.mono (hw : IsPlainCopy h H v w) (hext : H.Extends h') : IsPlainCopy h h' v w where
  isPlain := hw.isPlain.mono hext
  same := fun d hd => (hw.same d hd).mono hext

theorem stable_isPlainCopy (h : Heap) : Stable (IsPlainCopy h) := fun _ _ _ _ hw hext =>
  hw.mono hext

/-- Whether a conversion makes plain data of a value, wherever the heap has been extended to. -/
def Simplifies (f : Heap → Value → Except Fault (Value × Heap)) (h : Heap) (v : Value) : Prop :=
  Converts (IsPlainCopy h) f h v

variable {f : Heap → Value → Except Fault (Value × Heap)}

theorem IsPlainCopy.shows_all {vs ws : List Value} {ds : List PlainData}
    (hws : List.Forall₂ (IsPlainCopy h H) vs ws) (hds : List.Forall₂ h.Shows vs ds) :
    List.Forall₂ H.Shows ws ds := by
  induction hws generalizing ds with
  | nil =>
    cases hds
    exact .nil
  | cons hw _ ih =>
    obtain _ | ⟨hd, hds⟩ := hds
    exact .cons (hw.same _ hd) (ih hds)

theorem IsPlainCopy.isPlain_all {vs ws : List Value}
    (hws : List.Forall₂ (IsPlainCopy h H) vs ws) : ∀ w ∈ ws, H.IsPlain w := by
  induction hws with
  | nil => exact fun w hw => absurd hw List.not_mem_nil
  | cons hw _ ih => exact List.forall_mem_cons.2 ⟨hw.isPlain, ih⟩

/-! ## New containers -/

/-- The copies of some parts in a new list. -/
theorem IsPlainCopy.allocList {items items' : List Value}
    (hitems : List.Forall₂ (IsPlainCopy h H) items items')
    (hv : ∀ d, h.Shows v d → ∃ ds, d = .list ds ∧ List.Forall₂ h.Shows items ds) :
    IsPlainCopy h (H.allocList items').2 v (H.allocList items').1 := by
  have hext : H.Extends (H.allocList items').2 := extends_alloc H _
  have hget : (H.allocList items').2.get? (H.alloc (.list items')).2 = some (.list items') :=
    get?_alloc_self H _
  constructor
  · exact isPlain_list hget fun w hw => (isPlain_all hitems w hw).mono hext
  · intro d hd
    obtain ⟨ds, rfl, hds⟩ := hv d hd
    exact .list hget ((shows_all hitems hds).imp fun _ _ hw => hw.mono hext)

/-- Parts that become plain data, gathered in a new list. -/
theorem Simplifies.toList {items : List Value} (hitems : ∀ v ∈ items, Simplifies f h v)
    (hv : ∀ d, h.Shows v d → ∃ ds, d = .list ds ∧ List.Forall₂ h.Shows items ds)
    (hH : h.Extends H) :
    ∃ w H', (do let (items, H) ← convertAll f H items; return H.allocList items) = .ok (w, H') ∧
      H.Extends H' ∧ IsPlainCopy h H' v w := by
  obtain ⟨items', H', hall, hext, hitems'⟩ := Converts.all (stable_isPlainCopy h) hitems hH
  exact ⟨_, _, bind_eq_ok.2 ⟨_, hall, rfl⟩, hext.trans (extends_alloc H' _), .allocList hitems' hv⟩

theorem exists_key_of_plainKey {ks ls : List Value}
    (hkeys : List.Forall₂ (fun k l => H.plainKey σ k = .ok l) ks ls)
    (hks : ∀ k ∈ ks, ∃ l : PlainData.Key, H.plainKey σ k = .ok l.value) :
    ∀ l ∈ ls, ∃ k : PlainData.Key, l = k.value := by
  induction hkeys with
  | nil => exact fun l hl => absurd hl List.not_mem_nil
  | cons hl _ ih =>
    obtain ⟨⟨k, hk⟩, hks⟩ := List.forall_mem_cons.1 hks
    exact List.forall_mem_cons.2 ⟨⟨k, Except.ok.inj (hl.symm.trans hk)⟩, ih hks⟩

theorem eq_of_kept {ks ls : List Value}
    (hkeys : List.Forall₂ (fun k l => H.plainKey σ k = .ok l) ks ls)
    (hks : ∀ k ∈ ks, ∃ l : PlainData.Key, k = l.value) : ls = ks := by
  induction hkeys with
  | nil => rfl
  | cons hl _ ih =>
    obtain ⟨⟨k, rfl⟩, hrest⟩ := List.forall_mem_cons.1 hks
    rw [plainKey_kept] at hl
    rw [← Except.ok.inj hl, ih hrest]

/-- The copies of some values under their keys in a new dictionary, where later pairs replace earlier
ones. -/
theorem IsPlainCopy.allocDict {H₀ : Heap} {type : DictType} {es es' : Entries}
    (hn : h.get? a = some (.dict type es))
    (hkeys : List.Forall₂ (fun k l => H₀.plainKey σ k = .ok l) es.keys es'.keys)
    (hks : ∀ k ∈ es.keys, ∃ l : PlainData.Key, H₀.plainKey σ k = .ok l.value)
    (hvalues : List.Forall₂ (IsPlainCopy h H) es.values es'.values) :
    IsPlainCopy h (H.allocDict (Entries.ofList es')).2 (.ref a)
      (H.allocDict (Entries.ofList es')).1 := by
  have hext : H.Extends (H.allocDict (Entries.ofList es')).2 := extends_alloc H _
  have hget : (H.allocDict (Entries.ofList es')).2.get?
      (H.alloc (.dict .plain (Entries.ofList es'))).2 =
        some (.dict .plain (Entries.ofList es')) := get?_alloc_self H _
  constructor
  · have hes : ∀ e ∈ es', (∃ k : PlainData.Key, e.1 = k.value) ∧ H.IsPlain e.2 := fun e he =>
      ⟨exists_key_of_plainKey hkeys hks _ (List.mem_map_of_mem he),
        isPlain_all hvalues _ (List.mem_map_of_mem he)⟩
    have hkept := Entries.forall_mem_ofList (P := fun k => ∃ l : PlainData.Key, k = l.value) hes
    exact isPlain_dict hget (Entries.distinct_ofList es') fun e he =>
      ⟨(hkept e he).1, (hkept e he).2.mono hext⟩
  · intro d hd
    cases hd with
    | list hn' => simp [hn] at hn'
    | @dict _ es₀ fs hn' hdistinct hfs hds =>
      obtain ⟨rfl, rfl⟩ := Node.dict.inj (Option.some.inj (hn.symm.trans hn'))
      have hsame : es'.keys = es.keys := eq_of_kept hkeys fun k hk => by
        rw [hfs] at hk
        obtain ⟨f, -, rfl⟩ := List.mem_map.1 hk
        exact ⟨f.1, rfl⟩
      have hdistinct' : es'.Distinct := by rwa [Entries.Distinct, hsame]
      rw [Entries.ofList_of_distinct hdistinct'] at hget hext ⊢
      exact .dict hget hdistinct' (hsame.trans hfs)
        ((shows_all hvalues hds).imp fun _ _ hw => hw.mono hext)

/-! ## Arrays -/

/-- Whether a value is what the nested lists of a part of an array are, made on the way from one heap
to a later one. -/
def IsGridPart (cells : List Value) (shape : List Nat) (H H' : Heap) (offset : Nat) (w : Value) :
    Prop :=
  ∃ H₁ : Heap, H.Extends H₁ ∧ (H₁.gridList cells shape offset).1 = w ∧
    (H₁.gridList cells shape offset).2.Extends H'

/-- The list of an array holds the nested lists of its parts, which are made one after the other. -/
theorem exists_gridParts {cells : List Value} {shape : List Nat}
    (hext : ∀ (H : Heap) offset, H.Extends (H.gridList cells shape offset).2) (n : Nat) (H : Heap)
    (offset : Nat) :
    ∃ items H', H.gridList cells (n :: shape) offset = H'.allocList items ∧ H.Extends H' ∧
      List.Forall₂ (fun i => IsGridPart cells shape H H' (offset + i * cellCount shape))
        (List.range n) items := by
  -- The parts are gathered from the front, so the induction is over any run of positions.
  have hfold : ∀ (is : List Nat) (front : List Value) (H : Heap),
      ∃ items H', is.foldl (fun acc i =>
        let part := gridList acc.2 cells shape (offset + i * cellCount shape)
        (acc.1 ++ [part.1], part.2)) (front, H) = (front ++ items, H') ∧ H.Extends H' ∧
          List.Forall₂ (fun i => IsGridPart cells shape H H' (offset + i * cellCount shape))
            is items := by
    intro is
    induction is with
    | nil => exact fun front H => ⟨[], H, by rw [List.append_nil]; rfl, .refl H, .nil⟩
    | cons i is ih =>
      intro front H
      have hpart := hext H (offset + i * cellCount shape)
      obtain ⟨items, H', hrest, hext', hitems⟩ := ih
        (front ++ [(H.gridList cells shape (offset + i * cellCount shape)).1])
        (H.gridList cells shape (offset + i * cellCount shape)).2
      refine ⟨_ :: items, H', ?_, hpart.trans hext', .cons ⟨H, .refl H, rfl, hext'⟩ ?_⟩
      · rw [List.foldl_cons]
        exact hrest.trans (by rw [List.append_assoc]; rfl)
      · refine hitems.imp ?_
        rintro _ _ ⟨H₁, hH₁, hw⟩
        exact ⟨H₁, hpart.trans hH₁, hw⟩
  obtain ⟨items, H', hall, hextends, hitems⟩ := hfold (List.range n) [] H
  refine ⟨items, H', ?_, hextends, hitems⟩
  rw [gridList]
  exact congrArg (fun acc => acc.2.allocList acc.1) hall

theorem extends_gridList (cells : List Value) (shape : List Nat) (H : Heap) (offset : Nat) :
    H.Extends (H.gridList cells shape offset).2 := by
  induction shape generalizing H offset with
  | nil => exact .refl H
  | cons n shape ih =>
    obtain ⟨items, H', hgrid, hext, -⟩ := exists_gridParts ih n H offset
    rw [hgrid]
    exact hext.trans (extends_alloc H' _)

/-- The nested lists of an array of plain data. -/
theorem isPlain_gridList {cells : List Value} (hcells : ∀ w ∈ cells, h.IsPlain w)
    (shape : List Nat) (hH : h.Extends H) (offset : Nat) :
    (H.gridList cells shape offset).2.IsPlain (H.gridList cells shape offset).1 := by
  induction shape generalizing H offset with
  | nil =>
    rw [gridList]
    cases hc : cells[offset]? with
    | none => exact ⟨_, .leaf .null⟩
    | some w => exact (hcells w (List.mem_of_getElem? hc)).mono hH
  | cons n shape ih =>
    obtain ⟨items, H', hgrid, hext, hitems⟩ :=
      exists_gridParts (extends_gridList cells shape) n H offset
    rw [hgrid]
    refine isPlain_list (get?_alloc_self H' _) (forall_mem_right hitems fun i w _ hw => ?_)
    obtain ⟨H₁, hH₁, rfl, hlater⟩ := hw
    exact (ih (hH.trans hH₁) _).mono (hlater.trans (extends_alloc H' _))

/-- The cells of an array come out as they are: where the nested lists are plain data, the cells are
already. -/
theorem isPlain_cell {cells : List Value} {shape : List Nat} {H' : Heap} {offset : Nat}
    (hext : (H.gridList cells shape offset).2.Extends H')
    (hplain : H'.IsPlain (H.gridList cells shape offset).1) {i : Nat} (hi : i < cellCount shape)
    (hw : cells[offset + i]? = some w) : H'.IsPlain w := by
  induction shape generalizing H offset i with
  | nil =>
    obtain rfl : i = 0 := Nat.lt_one_iff.1 hi
    rw [Nat.add_zero] at hw
    simpa [gridList, hw] using hplain
  | cons n shape ih =>
    obtain ⟨items, H₁, hgrid, -, hitems⟩ :=
      exists_gridParts (extends_gridList cells shape) n H offset
    rw [hgrid] at hext hplain
    have hpos : 0 < cellCount shape := Nat.pos_of_ne_zero fun hzero => by
      simp [cellCount, hzero] at hi
    have hrow : i / cellCount shape < n := Nat.div_lt_of_lt_mul (by rwa [Nat.mul_comm])
    have hparts : ∀ part ∈ items, H'.IsPlain part := by
      obtain ⟨d, hd⟩ := hplain
      have hget : H'.get? (H₁.alloc (.list items)).2 = some (.list items) :=
        hext (get?_alloc_self H₁ _)
      cases hd with
      | list hn hds =>
        obtain rfl := Node.list.inj (Option.some.inj (hget.symm.trans hn))
        exact forall_mem_left hds fun _ d _ hw => ⟨d, hw⟩
      | dict hn => cases hget.symm.trans hn
    have hrows : ∀ row ∈ List.range n, ∀ j < cellCount shape,
        cells[offset + row * cellCount shape + j]? = some w → H'.IsPlain w := by
      refine forall_mem_left hitems fun row part hmem hpart j hj hw => ?_
      obtain ⟨H₂, -, rfl, hlater⟩ := hpart
      exact ih (hlater.trans ((extends_alloc H₁ _).trans hext)) (hparts _ hmem) hj hw
    refine hrows _ (List.mem_range.2 hrow) _ (Nat.mod_lt i hpos) ?_
    rwa [Nat.add_assoc, Nat.div_add_mod']

/-- The values of a record's fields. -/
theorem HoldsRecord.exists_values {P : Value → Prop} {type : String}
    {attrs : List (String × Value)} (hr : H.HoldsRecord σ a type attrs)
    (hP : ∀ f ∈ σ.fields type, ∀ w, attrs.lookup f.name = some w → P w) :
    ∃ values, (((σ.fields type).map (·.name)).mapM fun n => H.attributeOf σ a n) = .ok values ∧
      values.length = ((σ.fields type).map (·.name)).length ∧ ∀ w ∈ values, P w := by
  have hread : ∀ fs : List FieldDef, (∀ f ∈ fs, f ∈ σ.fields type) →
      ∃ values, ((fs.map (·.name)).mapM fun n => H.attributeOf σ a n) = .ok values ∧
        values.length = (fs.map (·.name)).length ∧ ∀ w ∈ values, P w := by
    intro fs hfs
    induction fs with
    | nil => exact ⟨[], rfl, rfl, fun w hw => absurd hw List.not_mem_nil⟩
    | cons f fs ih =>
      obtain ⟨hf, hfs⟩ := List.forall_mem_cons.1 hfs
      obtain ⟨w, hw⟩ := hr.filled f hf
      obtain ⟨values, hvalues, hlength, hall⟩ := ih hfs
      obtain ⟨fuel, hfuel⟩ := Nat.exists_eq_succ_of_ne_zero (Nat.ne_of_gt (fuel_pos σ H (.ref a)))
      have hattribute : H.attributeOf σ a f.name = .ok w := by
        rw [attributeOf, hfuel]
        exact hr.attributeWith hf hw
      refine ⟨w :: values, ?_, congrArg Nat.succ hlength, List.forall_mem_cons.2 ⟨hP f hf w hw, hall⟩⟩
      rw [List.map_cons, List.mapM_cons, hattribute, hvalues]
      rfl
  exact hread _ fun _ hf => hf

/-- The copies of the fields of a record under their names. -/
theorem IsPlainCopy.allocFields {type : String} {attrs : List (String × Value)}
    {names : List String} {values : List Value} (hr : h.HoldsRecord σ a type attrs)
    (hnames : names.Nodup) (hlength : values.length = names.length)
    (hvalues : ∀ w ∈ values, H.IsPlain w) :
    IsPlainCopy h (H.allocDict ((names.map fun n => .scalar (.text n)).zip values)).2 (.ref a)
      (H.allocDict ((names.map fun n => .scalar (.text n)).zip values)).1 := by
  have hkeys : Entries.keys ((names.map fun n => Value.scalar (.text n)).zip values) =
      names.map fun n => .scalar (.text n) :=
    List.map_fst_zip (by rw [List.length_map, hlength])
  have hdistinct : (names.map fun n => Value.scalar (.text n)).Pairwise
      fun k l => k.equal l = false := by
    refine List.pairwise_map.2 (hnames.imp fun {m n} hmn => Bool.eq_false_iff.2 fun heq => hmn ?_)
    rw [Value.equal] at heq
    exact Scalar.text.inj (Scalar.equal_of_isText (.inr ⟨n, rfl⟩) heq).2
  constructor
  · refine isPlain_dict (get?_alloc_self H _) (by rwa [Entries.Distinct, hkeys]) fun e he => ?_
    obtain ⟨n, -, hn⟩ := List.mem_map.1 (List.of_mem_zip he).1
    exact ⟨⟨.atom (.text n), hn.symm⟩, (hvalues _ (List.of_mem_zip he).2).mono (extends_alloc H _)⟩
  · intro d hd
    cases hd with
    | list hn | dict hn => simp [hr.node] at hn

/-! ## The conversion, kind by kind -/

section Kinds

variable {fuel : Nat}

theorem simplifies_scalar {s : Scalar} {b : Tree.Atom} (hs : s.StandsFor b) :
    Simplifies (plainWith σ (fuel + 1) r) h (.scalar s) := by
  cases hs with
  | atom =>
    refine fun H hH => ⟨.scalar b.scalar, H, ?_, .refl H, ⟨_, .leaf b⟩, fun d hd => hd.mono hH⟩
    cases b <;> rfl
  | element =>
    refine fun H hH => ⟨.scalar b.scalar, H, rfl, .refl H, ⟨_, .leaf b⟩, fun d hd => ?_⟩
    obtain ⟨c, hc⟩ := hd.exists_atom
    cases c <;> cases hc

theorem simplifies_list {items : List Value} (hn : h.get? a = some (.list items))
    (hitems : ∀ w ∈ items, Simplifies (plainWith σ fuel r) h w) :
    Simplifies (plainWith σ (fuel + 1) r) h (.ref a) := by
  intro H hH
  rw [plainWith, hH hn]
  refine Simplifies.toList hitems (fun d hd => ?_) hH
  cases hd with
  | list hn' hds =>
    obtain rfl := Node.list.inj (Option.some.inj (hn.symm.trans hn'))
    exact ⟨_, rfl, hds⟩
  | dict hn' => simp [hn] at hn'

theorem simplifies_set {items : List Value} (hn : h.get? a = some (.set items))
    (hitems : ∀ w ∈ items, Simplifies (plainWith σ fuel r) h w) :
    Simplifies (plainWith σ (fuel + 1) r) h (.ref a) := by
  intro H hH
  rw [plainWith, hH hn]
  refine Simplifies.toList hitems (fun d hd => ?_) hH
  -- A set is no plain data, so nothing is said about what it was before.
  cases hd with
  | list hn' | dict hn' => simp [hn] at hn'

theorem simplifies_dict {type : DictType} {es : Entries} (hn : h.get? a = some (.dict type es))
    (hcopy : r = true → type ≠ .defaulting ∧ copiesSomeRecord σ h es.keys = false)
    (hkeys : ∀ k ∈ es.keys, h.IsKey σ k)
    (hvalues : ∀ w ∈ es.values, Simplifies (plainWith σ fuel r) h w) :
    Simplifies (plainWith σ (fuel + 1) r) h (.ref a) := by
  intro H hH
  have hplainKeys : ∀ k ∈ es.keys, ∃ l : PlainData.Key, H.plainKey σ k = .ok l.value :=
    fun k hk => ((hkeys k hk).mono hH).exists_plainKey
  have hallowed : (r && type == .defaulting) = false ∧
      (r && copiesSomeRecord σ H es.keys) = false := by
    cases r with
    | false => exact ⟨rfl, rfl⟩
    | true =>
      obtain ⟨htype, hrecords⟩ := hcopy rfl
      rw [copiesSomeRecord_congr fun k hk => (hkeys k hk).copiesRecord hH]
      exact ⟨by simpa using htype, hrecords⟩
  obtain ⟨es', H', hall, hext, hkeys', hvalues'⟩ := Converts.entries (stable_isPlainCopy h)
    (fun k hk => (hplainKeys k hk).imp' PlainData.Key.value fun _ hl => hl) hvalues hH
  refine ⟨_, _, ?_, hext.trans (extends_alloc H' _), .allocDict hn hkeys' hplainKeys hvalues'⟩
  rw [plainWith, hH hn]
  simp only [hallowed.1, hallowed.2]
  exact bind_eq_ok.2 ⟨_, hall, rfl⟩

theorem simplifies_array {t : ElementType} {shape : List Nat} {cells : List Value}
    {writeable : Bool} (hn : h.get? a = some (.grid t shape cells writeable))
    (hcells : ∀ w ∈ cells, h.IsPlain w) :
    Simplifies (plainWith σ (fuel + 1) r) h (.ref a) := by
  intro H hH
  refine ⟨_, _, ?_, extends_gridList _ _ H 0, isPlain_gridList hcells shape hH 0, fun d hd => ?_⟩
  · rw [plainWith, hH hn]
  · cases hd with
    | list hn' | dict hn' => simp [hn] at hn'

theorem simplifies_row {offset : Nat} {t : ElementType} {shape whole : List Nat}
    {cells : List Value} {writeable : Bool} (hn : h.get? a = some (.grid t whole cells writeable))
    (hcells : ∀ w ∈ cells, h.IsPlain w) :
    Simplifies (plainWith σ (fuel + 1) r) h (.row a offset shape) := by
  intro H hH
  refine ⟨_, _, ?_, extends_gridList _ _ H _, isPlain_gridList hcells shape hH offset,
    by rintro d ⟨⟩⟩
  rw [plainWith, gridCells, hH hn]

theorem simplifies_record {type : String} {attrs : List (String × Value)}
    (hr : h.HoldsRecord σ a type attrs)
    (hfields : ∀ f ∈ σ.fields type, ∀ w, attrs.lookup f.name = some w →
      Simplifies (plainWith σ fuel true) h w) :
    Simplifies (plainWith σ (fuel + 1) r) h (.ref a) := by
  intro H hH
  obtain ⟨values, hread, hlength, hvalues⟩ := (hr.mono hH).exists_values hfields
  obtain ⟨values', H', hall, hext, hvalues'⟩ := Converts.all (stable_isPlainCopy h) hvalues hH
  have hlength' := hvalues'.length_eq.symm.trans hlength
  refine ⟨_, _, ?_, hext.trans (extends_alloc H' _),
    .allocFields hr (Schema.nodup_fields hr.model) hlength' (IsPlainCopy.isPlain_all hvalues')⟩
  rw [plainWith, (hr.mono hH).node]
  simp only [hr.model, hr.record]
  exact bind_eq_ok.2 ⟨_, hread, bind_eq_ok.2 ⟨_, hall, rfl⟩⟩

end Kinds

/-- The conversion of a value has room enough if every way down from the value has. -/
theorem Convertible.simplifies (hv : h.Convertible σ r v) {fuel : Nat}
    (hfuel : h.EndsWithin σ fuel v) : Simplifies (plainWith σ fuel r) h v := by
  induction hv generalizing fuel with
  | scalar hs =>
    obtain ⟨fuel, rfl, -⟩ := hfuel.exists_succ
    exact simplifies_scalar hs
  | tuple _ ih | named _ ih | frozenSet _ ih =>
    obtain ⟨fuel, rfl, hparts⟩ := hfuel.exists_succ
    intro H hH
    rw [plainWith]
    exact Simplifies.toList (fun w hw => ih w hw (hparts w hw)) (by rintro d ⟨⟩) hH
  | list hn _ ih =>
    obtain ⟨fuel, rfl, hparts⟩ := hfuel.exists_succ
    rw [parts_of_get? hn] at hparts
    exact simplifies_list hn fun w hw => ih w hw (hparts w hw)
  | set hn _ ih =>
    obtain ⟨fuel, rfl, hparts⟩ := hfuel.exists_succ
    rw [parts_of_get? hn] at hparts
    exact simplifies_set hn fun w hw => ih w hw (hparts w hw)
  | dict hn hcopy hkeys _ ih =>
    obtain ⟨fuel, rfl, hparts⟩ := hfuel.exists_succ
    rw [parts_of_get? hn] at hparts
    exact simplifies_dict hn hcopy hkeys fun w hw => ih w hw (hparts w (List.mem_append_right _ hw))
  | array hn hcells =>
    obtain ⟨fuel, rfl, -⟩ := hfuel.exists_succ
    exact simplifies_array hn fun w hw => isPlain_of_holds (hcells w hw)
  | row hn hcells =>
    obtain ⟨fuel, rfl, -⟩ := hfuel.exists_succ
    exact simplifies_row hn fun w hw => isPlain_of_holds (hcells w hw)
  | record hr _ ih =>
    obtain ⟨fuel, rfl, hparts⟩ := hfuel.exists_succ
    exact simplifies_record hr fun f hf w hw =>
      ih f hf w hw (hparts w (hr.mem_parts.2 ⟨f, hf, hw⟩))

/-- Whether the conversion makes plain data of a value, which is new on the heap, and leaves this data
as it is when it is applied again. -/
def BecomesPlain (σ : Schema) (h : Heap) (v : Value) : Prop :=
  ∃ w H d, h.plain σ v = .ok (w, H) ∧ h.Extends H ∧ H.Shows w d ∧
    ∃ w' H', H.plain σ w = .ok (w', H') ∧ H.Extends H' ∧ H'.Shows w' d

theorem Convertible.becomesPlain (hv : h.Convertible σ false v) : h.BecomesPlain σ v := by
  obtain ⟨n, hn, hends⟩ := hv.isAcyclic.endsWithin_fuel
  obtain ⟨w, H, hplain, hext, ⟨d, hd⟩, -⟩ := hv.simplifies (hends.mono (Nat.le_of_lt hn)) h (.refl h)
  have hw : H.Convertible σ false w := hd.convertible false
  obtain ⟨m, hm, hends'⟩ := hw.isAcyclic.endsWithin_fuel
  obtain ⟨w', H', hplain', hext', -, hsame⟩ :=
    hw.simplifies (hends'.mono (Nat.le_of_lt hm)) H (.refl H)
  exact ⟨w, H, d, hplain, hext, hd, w', H', hplain', hext', hsame d hd⟩

/-- An array becomes plain data exactly if its cells are plain data already. -/
theorem isPlain_array_iff {t : ElementType} {shape : List Nat} {cells : List Value}
    {writeable : Bool} (hn : h.get? a = some (.grid t shape cells writeable))
    (hlength : cells.length = cellCount shape) (hcells : ∀ w ∈ cells, h.Convertible σ r w) :
    ∃ w H, h.plain σ (.ref a) = .ok (w, H) ∧ h.Extends H ∧
      (H.IsPlain w ↔ ∀ c ∈ cells, h.IsPlain c) := by
  have hext := extends_gridList cells shape h 0
  refine ⟨_, _, ?_, hext, fun hplain c hc => ?_, fun hplain => isPlain_gridList hplain shape (.refl h) 0⟩
  · obtain ⟨fuel, hfuel⟩ := Nat.exists_eq_succ_of_ne_zero (Nat.ne_of_gt (fuel_pos σ h (.ref a)))
    rw [plain, hfuel, plainWith, hn]
  · obtain ⟨i, hi, rfl⟩ := List.mem_iff_getElem.1 hc
    obtain ⟨d, hd⟩ := isPlain_cell (.refl _) hplain (hlength ▸ hi)
      (by rw [Nat.zero_add]; exact List.getElem?_eq_getElem hi)
    exact ⟨d, (hcells _ hc).shows_of_extends hext hd⟩

/-- What is built of atoms becomes plain data at every depth, and an array becomes plain data exactly if
its cells are plain data. -/
theorem plain_laws (σ : Schema) (h : Heap) :
    (∀ v, h.Convertible σ false v → h.BecomesPlain σ v) ∧
      ∀ a t shape cells writeable, h.get? a = some (.grid t shape cells writeable) →
        cells.length = cellCount shape → (∀ w ∈ cells, h.Convertible σ false w) →
        ∃ w H, h.plain σ (.ref a) = .ok (w, H) ∧ h.Extends H ∧
          (H.IsPlain w ↔ ∀ c ∈ cells, h.IsPlain c) :=
  ⟨fun _ hv => hv.becomesPlain, fun _ _ _ _ _ hn hlength hcells =>
    isPlain_array_iff hn hlength hcells⟩

end Heap

/-- A record of a place and of what was counted there. -/
def surveyClass : ClassDef where
  name := "Survey"
  kind := .record
  fields := [{ name := "place", declared := .named "tuple" },
    { name := "counts", declared := .named "dict" }]

/-- The class of surveys alone. -/
def surveySchema : Schema := ⟨[surveyClass]⟩

/-- A survey with its counts in an array, and an array of objects with a tuple in it. -/
def survey : Heap :=
  ⟨#[.object "Survey" [("place", .tuple [.scalar (.text "Oslo"), .scalar (.machine "int64" (.int 3))]),
      ("counts", .ref 1)],
    .dict .ordered [(.tuple [.scalar (.int 1), .scalar (.int 2)], .ref 2),
      (.scalar .null, .frozenSet [])],
    .grid (.ofName "<i8") [2] [.scalar (.int 7), .scalar (.int 9)] true,
    .grid (.ofName "|O") [1] [.tuple [.scalar (.int 1), .scalar (.int 2)]] true]⟩

/-- The survey becomes plain data; the array of objects does not. -/
theorem Heap.plain_laws_survey :
    survey.BecomesPlain surveySchema (.ref 0) ∧
      ∃ w H, survey.plain surveySchema (.ref 3) = .ok (w, H) ∧ ¬ H.IsPlain w := by
  obtain ⟨hplain, harray⟩ := Heap.plain_laws surveySchema survey
  have hcounts : survey.Convertible surveySchema true (.ref 1) := by
    have hkey : survey.IsKey surveySchema (.tuple [.scalar (.int 1), .scalar (.int 2)]) :=
      .shown nofun (.tuple (List.forall_mem_cons.2 ⟨.scalar (by decide),
        List.forall_mem_singleton.2 (.scalar (by decide))⟩))
    refine .dict rfl (fun _ => ⟨nofun, rfl⟩) ?_ ?_
    · exact List.forall_mem_cons.2 ⟨hkey, List.forall_mem_singleton.2 (.kept (.atom .null))⟩
    · refine List.forall_mem_cons.2 ⟨.array rfl ?_, List.forall_mem_singleton.2 (.frozenSet nofun)⟩
      exact List.forall_mem_cons.2 ⟨⟨7, rfl⟩, List.forall_mem_singleton.2 ⟨9, rfl⟩⟩
  have hplace : survey.Convertible surveySchema true
      (.tuple [.scalar (.text "Oslo"), .scalar (.machine "int64" (.int 3))]) :=
    .tuple (List.forall_mem_cons.2 ⟨.scalar (.atom (.text "Oslo")),
      List.forall_mem_singleton.2 (.scalar (.element (by decide) (.int 3)))⟩)
  have hfields : surveySchema.fields "Survey" = surveyClass.fields := rfl
  have hstored : ∀ name, surveySchema.descriptor? "Survey" name = none := fun _ => rfl
  have hrecord : survey.HoldsRecord surveySchema 0 "Survey" [("place", .tuple [.scalar (.text "Oslo"),
      .scalar (.machine "int64" (.int 3))]), ("counts", .ref 1)] := by
    refine ⟨rfl, rfl, rfl, ?_, fun f _ p => by simp [hstored]⟩
    rw [hfields]
    exact List.forall_mem_cons.2 ⟨⟨_, rfl⟩, List.forall_mem_singleton.2 ⟨_, rfl⟩⟩
  refine ⟨hplain _ (.record hrecord ?_), ?_⟩
  · rw [hfields]
    refine List.forall_mem_cons.2 ⟨?_, List.forall_mem_singleton.2 ?_⟩
    · rintro w ⟨⟩
      exact hplace
    · rintro w ⟨⟩
      exact hcounts
  · have hpair : survey.Convertible surveySchema false (.tuple [.scalar (.int 1), .scalar (.int 2)]) :=
      .tuple (List.forall_mem_cons.2 ⟨.scalar (.atom (.int 1)),
        List.forall_mem_singleton.2 (.scalar (.atom (.int 2)))⟩)
    obtain ⟨w, H, hw, -, hiff⟩ := harray 3 _ _ _ _ rfl rfl (List.forall_mem_singleton.2 hpair)
    refine ⟨w, H, hw, fun hplain => ?_⟩
    obtain ⟨d, hd⟩ := hiff.1 hplain _ (List.mem_singleton_self _)
    cases hd

end Dotpath

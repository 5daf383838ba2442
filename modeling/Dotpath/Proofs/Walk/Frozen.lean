import Dotpath.Proofs.Schema.Declared
import Dotpath.Proofs.Walk.LetOut
import Dotpath.Proofs.Walk.Run

/-!
# Frozen objects

An instance of a frozen record class, or of a frozen model, takes no assignment at all, and a frozen
field of a model takes none either.  A setter that passes the value on to another name comes to the
same checks there.  So whatever is written, in whatever order and through whatever host, these
attributes hold what they held before (`runWrites_keeps_frozen`).
-/

namespace Dotpath

namespace Schema

/-- Whether the instances of a class are frozen: the class itself is a frozen record class, or a model
with the option. -/
def IsFrozen (σ : Schema) (type : String) : Prop :=
  (∃ c, σ.find? type = some c ∧ c.kind = .record ∧ c.frozen = true) ∨
    σ.isModel type = true ∧ σ.isFrozenModel type = true

/-- Whether a name is that of a frozen field of a model. -/
def IsFrozenField (σ : Schema) (type name : String) : Prop :=
  σ.isModel type = true ∧ ∃ f, σ.field? type name = some f ∧ f.frozen = true

variable {σ : Schema} {type name : String}

/-- A frozen record class refuses every name of its own instances. -/
theorem refusesName_of_find? {c : ClassDef} (hc : σ.find? type = some c) (hkind : c.kind = .record)
    (hfrozen : c.frozen = true) (name : String) : σ.refusesName type name = true := by
  refine List.any_eq_true.2 ⟨c, mem_lineage_of_find? hc, ?_⟩
  simp [hkind, hfrozen, name_of_find? hc]

theorem IsFrozen.not_admits (hfrozen : σ.IsFrozen type) (hpub : isPublic name = true) :
    ¬ σ.Admits type name := by
  intro hadmits
  rcases hfrozen with ⟨c, hc, hkind, hfrozen⟩ | ⟨hmodel, hfrozen⟩
  · cases (refusesName_of_find? hc hkind hfrozen name).symm.trans hadmits.not_refused
  · have hfixed := hadmits.not_fixed hmodel hpub
    rw [fixesName, hfrozen] at hfixed
    cases hfixed

theorem IsFrozenField.not_admits (hfrozen : σ.IsFrozenField type name) : ¬ σ.Admits type name := by
  intro hadmits
  obtain ⟨hmodel, f, hf, hfrozen⟩ := hfrozen
  have hfixed := hadmits.not_fixed hmodel (isPublic_of_field? hmodel hf)
  rw [fixesName, hf, Option.map_some, Option.getD_some, hfrozen, Bool.or_true] at hfixed
  cases hfixed

end Schema

namespace Heap

variable {σ : Schema} {h h' h'' : Heap} {a : Address} {type : String}
  {attrs : List (String × Value)} {name : String} {v : Value}

/-- Whether every object of a heap is still there in a later one, with the same attributes if it is
frozen, and with the same values of frozen fields. -/
def KeepsFrozen (σ : Schema) (h h' : Heap) : Prop :=
  ∀ ⦃a : Address⦄ ⦃type : String⦄ ⦃attrs : List (String × Value)⦄,
    h.get? a = some (.object type attrs) →
    ∃ attrs', h'.get? a = some (.object type attrs') ∧ (σ.IsFrozen type → attrs' = attrs) ∧
      ∀ name, σ.IsFrozenField type name → attrs'.lookup name = attrs.lookup name

theorem KeepsFrozen.refl (σ : Schema) (h : Heap) : h.KeepsFrozen σ h :=
  fun _ _ attrs hget => ⟨attrs, hget, fun _ => rfl, fun _ _ => rfl⟩

theorem KeepsFrozen.trans (h₁ : h.KeepsFrozen σ h') (h₂ : h'.KeepsFrozen σ h'') :
    h.KeepsFrozen σ h'' := by
  intro a type attrs hget
  obtain ⟨attrs', hget', hsame', hfields'⟩ := h₁ hget
  obtain ⟨attrs'', hget'', hsame'', hfields''⟩ := h₂ hget'
  exact ⟨attrs'', hget'', fun hfrozen => (hsame'' hfrozen).trans (hsame' hfrozen),
    fun name hfrozen => (hfields'' name hfrozen).trans (hfields' name hfrozen)⟩

theorem KeepsObjects.keepsFrozen (hkeeps : h.KeepsObjects σ h') : h.KeepsFrozen σ h' :=
  fun _ _ attrs hget => ⟨attrs, hkeeps.objects.2 hget, fun _ => rfl, fun _ _ => rfl⟩

/-- What is stored in an object that is not frozen, under names that get past the checks, changes no
frozen field. -/
theorem StoresEach.keepsFrozen {names : List String} (hget : h.get? a = some (.object type attrs))
    (hfrozen : ¬ σ.IsFrozen type) (hstores : StoresEach σ a type v h names h') :
    h.KeepsFrozen σ h' := by
  induction hstores generalizing attrs with
  | nil h => exact .refl σ h
  | @cons h h₁ h₂ name names hadmits hfirst _ ih =>
    obtain ⟨⟨w, hself⟩, hothers⟩ := hfirst.objects hget
    refine KeepsFrozen.trans ?_ (ih hself)
    intro b type' attrs' hb
    by_cases hab : a = b
    · subst hab
      cases hget.symm.trans hb
      refine ⟨_, hself, fun hyes => absurd hyes hfrozen, fun n hfield => ?_⟩
      refine Schema.lookup_putAttribute_of_ne ?_ w
      rintro rfl
      exact hfield.not_admits hadmits
    · exact ⟨attrs', (hothers b hab type' attrs').2 hb, fun _ => rfl, fun _ _ => rfl⟩

/-- Writing a property changes no frozen attribute, also where it fails. -/
theorem keepsFrozen_of_writeProperty (σ : Schema) (h : Heap) (c : Value) (name : String) (v : Value) :
    h.KeepsFrozen σ (heapLeft (h.writeProperty σ c (some name) v)) := by
  rcases writeProperty_cases σ h c (some name) v with
    ⟨f, hf⟩ | ⟨a, type, attrs, ps, p, rfl, hget, hps, hp, -, -, -, hassign⟩
  · rw [hf]
    exact .refl σ h
  · rw [hassign, heapLeft_mapError]
    by_cases hfrozen : σ.IsFrozen type
    · -- The object refuses the name of the property, and no setter is run.
      rcases assignWith_cases (σ := σ) (σ.propertyCount + 1) hget p.name v with
        ⟨f, hf⟩ | ⟨hadmits, -⟩
      · rw [assign, hf]
        exact .refl σ h
      · exact absurd hadmits (hfrozen.not_admits (isPublic_of_mem_propertiesOf hps hp))
    · obtain ⟨names, hstores⟩ := storesEach_assignWith (σ := σ) (σ.propertyCount + 2) hget p.name v
      exact hstores.keepsFrozen hget hfrozen

/-- A property whose value is assigned gets past the checks. -/
theorem admits_of_writeProperty (hget : h.get? a = some (.object type attrs))
    (hwrite : h.writeProperty σ (.ref a) (some name) v = .ok h') :
    isPublic name = true ∧ σ.Admits type name := by
  obtain ⟨b, type', attrs', ps, p, hb, hget', hps, hp, -, hname, -, hassign⟩ :=
    exists_assign_of_writeProperty hwrite
  cases hb
  cases hget.symm.trans hget'
  cases hname
  exact ⟨isPublic_of_mem_propertiesOf hps hp, admits_of_assignWith hget hassign⟩

/-- A write to a frozen attribute does not succeed. -/
theorem write_ne_done_of_frozen {keys : Option Deserializer} {host : Value} {p : Path} {j : Int}
    (htarget : h.parentOf σ keys host p = .done (.ref a, j))
    (hget : h.get? a = some (.object type attrs)) (hs : p.segment p.lastIndex = .ok (some name))
    (hfrozen : σ.IsFrozen type ∨ σ.IsFrozenField type name) :
    h.write σ keys host p v ≠ .done h' := by
  intro hw
  obtain ⟨t, i, ht, hput⟩ := exists_put_of_write hw
  cases htarget.symm.trans ht
  have hget := (addsDefaults_leftByParent σ h keys host p).get? hget (by rintro es ⟨⟩)
  rw [put, classify_of_get? hget] at hput
  obtain ⟨n, hname, hwrite⟩ := putProperty_eq_done hput
  obtain ⟨hsegment, -⟩ := (nameAt_eq_done hs).1 hname
  obtain rfl := Option.some.inj hsegment
  obtain ⟨hpub, hadmits⟩ := admits_of_writeProperty hget hwrite
  rcases hfrozen with hfrozen | hfrozen
  · exact hfrozen.not_admits hpub hadmits
  · exact hfrozen.not_admits hadmits

end Heap

/-- No run of writes changes a frozen object or a frozen field: every instance of a frozen record
class or a frozen model holds what it held before, and so does every frozen field of a model.  And no
write to such an attribute returns true. -/
theorem runWrites_keeps_frozen (σ : Schema) (h : Heap) (calls : List WriteCall) :
    h.KeepsFrozen σ (runWrites σ h calls) ∧
      ∀ (w : Walker) (host : Value) (p : Path) (v : Value) (a : Address) (j : Int) (type : String)
        (attrs : List (String × Value)) (name : String),
        h.parentOf σ w.keys host p = .done (.ref a, j) → h.get? a = some (.object type attrs) →
        p.segment p.lastIndex = .ok (some name) →
        σ.IsFrozen type ∨ σ.IsFrozenField type name →
        (w.writePath σ h host p v).result ≠ .ok true := by
  refine ⟨?_, fun w host p v a j type attrs name htarget hget hs hfrozen hresult => ?_⟩
  · exact runWrites_invariant (P := fun h' => h.KeepsFrozen σ h')
      (fun hkept hkeeps => hkept.trans hkeeps.keepsFrozen)
      (fun hkept => hkept.trans (Heap.keepsFrozen_of_writeProperty σ _ _ _ _)) (.refl σ h) calls
  · obtain ⟨h', hw⟩ := (w.result_writePath_eq_true σ h host p v).1 hresult
    exact Heap.write_ne_done_of_frozen htarget hget hs hfrozen hw

/-- The class of points: a frozen record whose computed abscissa passes values on to its field. -/
def pointClass : ClassDef where
  name := "Point"
  kind := .record
  fields := [{ name := "x", declared := .named "int" }]
  frozen := true
  properties := [{ name := "abscissa", getter := .alias "x", setter := some { stores := ["x"] } }]

/-- A point with an attribute beyond its field, in a list. -/
def listedPoint : Heap :=
  ⟨#[.list [.ref 1], .object "Point" [("x", .scalar (.int 1)), ("note", .ref 0)]]⟩

/-- Neither through the setter nor through the list does a batch change the point. -/
theorem runWrites_keeps_frozen_point :
    let σ : Schema := ⟨[pointClass]⟩
    let x := Path.ofSegments [some "0", some "x"]
    let abscissa := Path.ofSegments [some "0", some "abscissa"]
    let note := Path.ofSegments [some "0", some "note"]
    let w : Walker := ⟨[abscissa, x, note], false, none⟩
    let calls : List WriteCall := [.several w (.ref 0) [.scalar (.int 2), .scalar (.int 3), .ref 1],
      .one w (.ref 0) (.scalar (.int 4))]
    (runWrites σ listedPoint calls).get? 1 = listedPoint.get? 1 ∧
      (w.writePath σ listedPoint (.ref 0) note (.ref 1)).result ≠ .ok true := by
  intro σ x abscissa note w calls
  have hfrozen : σ.IsFrozen "Point" := .inl ⟨pointClass, rfl, rfl, rfl⟩
  obtain ⟨hkeeps, hfalse⟩ := runWrites_keeps_frozen σ listedPoint calls
  have htarget : listedPoint.parentOf σ none (.ref 0) note = .done (.ref 1, 0) := by cbv
  have hlast : note.segment note.lastIndex = .ok (some "note") := by cbv
  obtain ⟨attrs, hget, hsame, -⟩ :=
    hkeeps (show listedPoint.get? 1 =
      some (.object "Point" [("x", .scalar (.int 1)), ("note", .ref 0)]) from rfl)
  refine ⟨?_, hfalse w (.ref 0) note (.ref 1) 1 0 _ _ "note" htarget rfl hlast (.inl hfrozen)⟩
  rw [hget, hsame hfrozen]
  rfl

end Dotpath

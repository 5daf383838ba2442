import Dotpath.Proofs.Graph.Admission
import Dotpath.Proofs.Schema.ReadOnly
import Dotpath.Proofs.Walk.Missing

/-!
# Writing read-only properties

An object whose class has a property without a setter under a name never takes a value there.  As a
rule the name counts as missing.  But where a pass lists it as writable again (`Schema.reopens`), the
value is handed to the property, which refuses it, and the write fails for another reason
(`Walker.writePath_readOnly`).
-/

namespace Dotpath

namespace Heap

variable {σ : Schema} {h h' : Heap} {keys : Option Deserializer} {p : Path} {i : Int} {a : Address}
  {type name : String} {attrs : List (String × Value)} {q : Property} {m : PropertyInfo} {v : Value}
  {s : Segment}

/-- The faults with which an object refuses a value for a property without a setter. -/
inductive RefusesValue (type name : String) : Fault → Prop
  | mistyped (message : String) : RefusesValue type name (.illegalAssignment message)
  | frozen : RefusesValue type name (.frozenField name)
  | noSetter : RefusesValue type name (.noSetter name type)

theorem RefusesValue.isShown {e : Fault} (he : RefusesValue type name e) : e.IsShown := by
  apply isShown_of_ne_raised
  rintro kind args rfl
  cases he

/-- A write that an object refuses is a mismatch, or the fault is told. -/
theorem code_of_refusesValue (hs : p.segment i = .ok s) {e : Fault} (he : RefusesValue type name e) :
    ∃ f, (h.assignmentFault σ (.ref a) p i e : Outcome Heap) = .fail f ∧
      (f.code = .typeMismatch ∨ f.code = .exception) := by
  obtain ⟨shown, hshown⟩ := Option.isSome_iff_exists.1 he.isShown
  cases he with
  | mistyped message =>
    have hkind : (Fault.illegalAssignment message).kind = .illegalAssignment := rfl
    rw [assignmentFault, if_pos hkind]
    exact ⟨_, failAt_of_segment hs _ _, .inl rfl⟩
  | frozen | noSetter =>
    rw [assignmentFault, if_neg (by rintro ⟨⟩), propertyFault]
    dsimp only [Fault.kind]
    rw [hshown]
    exact ⟨_, failAt_of_segment hs _ _, .inr rfl⟩

section Assign

variable (hget : h.get? a = some (.object type attrs))
  (hq : σ.descriptor? type name = some (.property q)) (hsetter : q.setter = none)

include hget hq hsetter

theorem assign_of_noSetter : h.assign σ a name v = .error (.frozenField name, h) ∨
    h.assign σ a name v = .error (.invalid, h) ∨
      h.assign σ a name v = .error (.noSetter name type, h) := by
  rw [assign, assignWith, hget]
  dsimp only
  split
  · exact .inl rfl
  · split
    · exact .inr (.inl rfl)
    · rw [hq]
      dsimp only
      rw [hsetter]
      exact .inr (.inr rfl)

theorem refusesValue_of_writable {ps : List PropertyInfo} (hps : h.propertiesOf σ (.ref a) = .ok ps)
    (hm : (ps.filter (·.writable)).find? (fun p => some p.name == some name) = some m) :
    ∃ e, h.writeProperty σ (.ref a) (some name) v = .error (e, h) ∧ RefusesValue type name e := by
  have hname : m.name = name := by simpa using List.find?_some hm
  cases hv : h.isAssignable σ m.declared v with
  | false =>
    rw [writeProperty_of_mistyped hget hps hm hv]
    exact ⟨_, rfl, .mistyped _⟩
  | true =>
    rw [writeProperty_eq_assign hget hps hm hv, hname]
    obtain hassign | hassign | hassign := assign_of_noSetter (v := v) hget hq hsetter
    · rw [hassign]
      exact ⟨_, rfl, .frozen⟩
    · rw [hassign]
      exact ⟨_, rfl, .mistyped _⟩
    · rw [hassign]
      exact ⟨_, rfl, .noSetter⟩

/-- A write to a read-only property that a later pass reopens, which changes nothing. -/
theorem put_of_reopens {ps : List PropertyInfo} (hps : h.propertiesOf σ (.ref a) = .ok ps)
    (hdistinct : σ.HasDistinctProperties type) (hpub : isPublic name = true)
    (hreopens : σ.reopens type name = true) (hs : p.segment p.lastIndex = .ok (some name))
    (hname : name ≠ "") :
    (∃ f, h.put σ keys (.ref a) p v = .fail f ∧ (f.code = .typeMismatch ∨ f.code = .exception)) ∧
      h.leftByPut σ (.ref a) p v = h := by
  obtain ⟨r, hr, hrn⟩ :=
    exists_writable_of_reopens (object?_of_get? hget) hps hdistinct hq hsetter hpub hreopens
  cases hm : (ps.filter (·.writable)).find? (fun p => some p.name == some name) with
  | none => exact absurd (beq_of_eq (congrArg some hrn)) (List.find?_eq_none.1 hm r hr)
  | some m =>
    obtain ⟨e, hwrite, he⟩ := refusesValue_of_writable (v := v) hget hq hsetter hps hm
    have hat := (nameAt_eq_done hs).2 ⟨rfl, hname⟩
    rw [put, leftByPut, classify_of_get? hget, putInto, leftByPutInto, putProperty, leftByProperty,
      hat, Outcome.done_bind]
    dsimp only
    rw [hwrite]
    exact ⟨code_of_refusesValue hs he, rfl⟩

end Assign

end Heap

namespace Walker

open Heap

variable (w : Walker) {σ : Schema} {h : Heap} {host v : Value} {p : Path} {j : Int} {a : Address}
  {type name : String} {attrs : List (String × Value)} {q : Property}

/-- A write never gives a value to a property without a setter, and changes nothing but what the walk
to the object has changed.  The name counts as missing, unless a pass lists it as writable again: then
the write is a mismatch, or fails with the fault of the assignment.  Where the properties cannot be
listed, the fault of listing them is told. -/
theorem writePath_readOnly (hget : h.get? a = some (.object type attrs))
    (hdistinct : σ.HasDistinctProperties type)
    (hq : σ.descriptor? type name = some (.property q)) (hsetter : q.setter = none)
    (hpub : isPublic name = true) (hname : name ≠ "")
    (hparent : h.parentOf σ w.keys host p = .done (.ref a, j))
    (hs : p.segment p.lastIndex = .ok (some name)) (v : Value) :
    let left := h.leftByParent σ w.keys host p
    let told := left.assignmentFault σ (.ref a) p p.lastIndex
    (w.writePath σ h host p v).result ≠ .ok true ∧ (w.writePath σ h host p v).heap = left ∧
      (σ.reopens type name = false →
        MissesProperty σ left (.ref a) p p.lastIndex told
          (writableOf (left.propertiesOf σ (.ref a))) (h.write σ w.keys host p v)) ∧
      (σ.reopens type name = true →
        (∃ e, left.propertiesOf σ (.ref a) = .error e ∧ h.write σ w.keys host p v = told e) ∨
          ∃ f, h.write σ w.keys host p v = .fail f ∧
            (f.code = .typeMismatch ∨ f.code = .exception)) := by
  intro left told
  have hget' : left.get? a = some (.object type attrs) :=
    (addsDefaults_leftByParent σ h w.keys host p).get? hget (by rintro _ ⟨⟩)
  have hobject : left.IsObject (.ref a) := ⟨rfl, classify_of_get? hget'⟩
  have htold (f : Fault) (h' : Heap) : told f ≠ .done h' := by
    intro hf
    have hnone := congrArg Outcome.result? hf
    rw [result?_assignmentFault] at hnone
    cases hnone
  have hclosed (hreopens : σ.reopens type name = false) :
      MissesProperty σ left (.ref a) p p.lastIndex told (writableOf (left.propertiesOf σ (.ref a)))
          (left.put σ w.keys (.ref a) p v) ∧ left.leftByPut σ (.ref a) p v = left :=
    missesProperty_put σ w.keys v hobject hs hname fun ps hps =>
      ne_of_not_reopens (object?_of_get? hget') hps hdistinct hq hsetter hpub hreopens
  have hreopened (hreopens : σ.reopens type name = true) :
      ((∃ e, left.propertiesOf σ (.ref a) = .error e ∧ left.put σ w.keys (.ref a) p v = told e) ∨
        ∃ f, left.put σ w.keys (.ref a) p v = .fail f ∧
          (f.code = .typeMismatch ∨ f.code = .exception)) ∧
        left.leftByPut σ (.ref a) p v = left := by
    cases hps : left.propertiesOf σ (.ref a) with
    | error e =>
      obtain ⟨hmisses, hkept⟩ := missesProperty_put σ w.keys v hobject hs hname
        fun ps hok => by cases hps.symm.trans hok
      rw [hps] at hmisses
      exact ⟨.inl ⟨e, rfl, hmisses.eq_told⟩, hkept⟩
    | ok ps =>
      obtain ⟨hfails, hkept⟩ :=
        put_of_reopens hget' hq hsetter hps hdistinct hpub hreopens hs hname
      exact ⟨.inr hfails, hkept⟩
  have hkept : (∀ h', left.put σ w.keys (.ref a) p v ≠ .done h') ∧
      left.leftByPut σ (.ref a) p v = left := by
    cases hreopens : σ.reopens type name with
    | false =>
      obtain ⟨hmisses, hkept⟩ := hclosed hreopens
      exact ⟨fun h' => hmisses.ne_done fun f => htold f h', hkept⟩
    | true =>
      obtain ⟨⟨e, -, hput⟩ | ⟨f, hput, -⟩, hkept⟩ := hreopened hreopens
      · exact ⟨fun h' => by rw [hput]; exact htold e h', hkept⟩
      · exact ⟨fun h' => by rw [hput]; rintro ⟨⟩, hkept⟩
  have hwrite : h.write σ w.keys host p v = left.put σ w.keys (.ref a) p v :=
    write_of_parentOf hparent rfl
  rw [hwrite]
  refine ⟨?_, w.heap_writePath_of_put hparent rfl hkept.1 hkept.2, fun hreopens => (hclosed hreopens).1,
    fun hreopens => (hreopened hreopens).1⟩
  rw [Ne, result_writePath_eq_true, hwrite]
  exact fun ⟨h', hdone⟩ => hkept.1 h' hdone

/-- A record class with a field, a class that puts a property without a setter in the place of this
field, and a class that has such a property of its own. -/
def shadowedSchema : Schema :=
  let x : Property := { name := "x", getter := .constant (.scalar (.int 1)) }
  ⟨[{ name := "Base", kind := .record, fields := [{ name := "x", declared := .named "int" }] },
    { name := "Derived", bases := ["Base"], properties := [x] },
    { name := "Closed", properties := [x] }]⟩

/-- An instance of each of the two classes with a property. -/
def shadowedPair : Heap := ⟨#[.object "Derived" [], .object "Closed" [("y", .scalar (.int 0))]]⟩

/-- For a write the name is missing from the class of its own.  From the class with the field it is
not, and the property refuses the value. -/
theorem writePath_readOnly_shadowedPair :
    let p := Path.parse "x"
    (∃ f, shadowedPair.write shadowedSchema none (.ref 1) p (.scalar (.int 2)) = .fail f ∧
        f.code = .noSuchProperty) ∧
      (∃ f, shadowedPair.write shadowedSchema none (.ref 0) p (.scalar (.int 2)) = .fail f ∧
        (f.code = .typeMismatch ∨ f.code = .exception)) ∧
      shadowedPair.writeProperty shadowedSchema (.ref 0) (some "x") (.scalar (.int 2)) =
        .error (.noSetter "x" "Derived", shadowedPair) := by
  have hs : (Path.parse "x").segment (Path.parse "x").lastIndex = .ok (some "x") := by cbv
  have hx : ∀ type, type = "Derived" ∨ type = "Closed" → shadowedSchema.descriptor? type "x" =
      some (.property { name := "x", getter := .constant (.scalar (.int 1)) }) := by
    rintro type (rfl | rfl) <;> rfl
  have hclosed : shadowedPair.get? 1 = some (.object "Closed" [("y", .scalar (.int 0))]) := rfl
  have hderived : shadowedPair.get? 0 = some (.object "Derived" []) := rfl
  have hparent (c : Value) :
      shadowedPair.parentOf shadowedSchema none c (Path.parse "x") = .done (c, 0) := by cbv
  have hleft (c : Value) :
      shadowedPair.leftByParent shadowedSchema none c (Path.parse "x") = shadowedPair := by cbv
  have hspecial : ∀ type, type = "Derived" ∨ type = "Closed" →
      shadowedSchema.computes type dictionaryName = false ∧
        shadowedSchema.computes type extrasName = false := by
    rintro type (rfl | rfl) <;> exact ⟨by decide, by decide⟩
  refine ⟨?_, ?_, ?_⟩
  · obtain ⟨-, -, hmisses, -⟩ := writePath_readOnly ⟨[], true, none⟩ hclosed (by decide)
      (hx _ (.inr rfl)) rfl (by decide) (by decide) (hparent _) hs (.scalar (.int 2))
    replace hmisses := hmisses (by decide)
    obtain ⟨hdict, hextras⟩ := hspecial _ (.inr rfl)
    rw [hleft, propertiesOf_of_get? hclosed hdict hextras] at hmisses
    exact MissesProperty.code_eq hmisses (List.isEmpty_eq_false_iff.1 (by decide))
  · obtain ⟨-, -, -, hreopened⟩ := writePath_readOnly ⟨[], true, none⟩ hderived (by decide)
      (hx _ (.inl rfl)) rfl (by decide) (by decide) (hparent _) hs (.scalar (.int 2))
    obtain ⟨e, he, -⟩ | hfails := hreopened (by decide)
    · obtain ⟨hdict, hextras⟩ := hspecial _ (.inl rfl)
      rw [hleft, propertiesOf_of_get? hderived hdict hextras] at he
      cases he
    · exact hfails
  · rfl

end Walker

end Dotpath

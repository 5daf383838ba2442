import Dotpath.Proofs.Schema.Declared
import Dotpath.Proofs.Walk.Policy
import Dotpath.Proofs.Walk.Reasons
import Dotpath.Proofs.Walk.Run
import Dotpath.Proofs.Walk.Undisturbed

/-!
# Names that an object does not expose

A step at a name that is none of the properties of an object, and an assignment at one that is none
of its writable properties, fail in the same way: the name is missing if there are others, and else
the object is the end of the path (`Heap.MissesProperty`).  Then the message shows the object, and a
fault of showing it goes through.  Where the properties cannot be listed, the fault of listing them is
told instead.

Names that start with an underscore are never properties, whatever declares or stores them
(`Walker.writePath_private`).
-/

namespace Dotpath

namespace Heap

variable {σ : Schema} {h h' : Heap} {keys : Option Deserializer} {p : Path} {i : Int} {c v : Value}
  {name : String} {ps : List PropertyInfo}

/-- The outcome of a step or an assignment at a name that is none of the listed properties.  A fault of
listing them is told as it is told where a property raises it. -/
inductive MissesProperty {α : Type} (σ : Schema) (h : Heap) (c : Value) (p : Path) (i : Int)
    (told : Fault → Outcome α) (listed : Except Fault (List PropertyInfo)) : Outcome α → Prop
  | missing {ps : List PropertyInfo} (hlisted : listed = .ok ps) (hps : ps ≠ []) :
    MissesProperty σ h c p i told listed
      (.fail ⟨.noSuchProperty (qualifiedName (h.typeName c)), p, i, some .noSuchProperty⟩)
  | terminal {shown : String} (hlisted : listed = .ok []) (hshown : h.format σ c = .ok shown) :
    MissesProperty σ h c p i told listed
      (.fail ⟨.terminalValue (h.typeName c) shown, p, i, none⟩)
  /-- The object cannot be shown in the message. -/
  | unshown {f : Fault} (hlisted : listed = .ok []) (hshown : h.format σ c = .error f) :
    MissesProperty σ h c p i told listed (.escape f)
  | unlisted {f : Fault} (hlisted : listed = .error f) : MissesProperty σ h c p i told listed (told f)

namespace MissesProperty

variable {α : Type} {told : Fault → Outcome α} {listed : Except Fault (List PropertyInfo)}
  {x : Outcome α}

theorem ne_done {a : α} (hx : MissesProperty σ h c p i told listed x)
    (htold : ∀ f, told f ≠ .done a) : x ≠ .done a := by
  cases hx with
  | missing | terminal | unshown => rintro ⟨⟩
  | unlisted => exact htold _

/-- A name is missing from an object that has properties. -/
theorem code_eq (hx : MissesProperty σ h c p i told (.ok ps) x) (hps : ps ≠ []) :
    ∃ f, x = .fail f ∧ f.code = .noSuchProperty := by
  cases hx with
  | missing => exact ⟨_, rfl, rfl⟩
  | terminal hnil | unshown hnil => exact absurd (Except.ok.inj hnil) hps
  | unlisted hlisted => cases hlisted

/-- Where an object without properties cannot be shown, the fault of showing it goes through. -/
theorem eq_escape {f : Fault} (hx : MissesProperty σ h c p i told (.ok []) x)
    (hshown : h.format σ c = .error f) : x = .escape f := by
  cases hx with
  | missing hlisted hps => exact absurd (Except.ok.inj hlisted).symm hps
  | terminal _ ht => cases hshown.symm.trans ht
  | unshown _ hf =>
    cases hshown.symm.trans hf
    rfl
  | unlisted hlisted => cases hlisted

/-- Where the properties cannot be listed, the fault of listing them is told. -/
theorem eq_told {f : Fault} (hx : MissesProperty σ h c p i told (.error f) x) : x = told f := by
  cases hx with
  | missing hlisted | terminal hlisted | unshown hlisted => cases hlisted
  | unlisted hlisted =>
    cases hlisted
    rfl

end MissesProperty

/-- The fault of a name that is missing, for reading or writing. -/
def missingFault (h : Heap) (c : Value) (name : String) (writing : Bool)
    (ps : List PropertyInfo) : Fault :=
  if ps.isEmpty then .noProperties (h.typeName c) writing
  else .noProperty (h.typeName c) name writing

theorem missesProperty_propertyFault {α : Type} {s : Segment} (hs : p.segment i = .ok s)
    (told : Fault → Outcome α) (writing : Bool) (ps : List PropertyInfo) :
    MissesProperty σ h c p i told (.ok ps)
      (h.propertyFault σ c p i (h.missingFault c name writing ps)) := by
  cases ps with
  | nil =>
    show MissesProperty σ h c p i told (.ok []) (h.terminalAt σ c p i)
    rw [terminalAt]
    cases hshown : h.format σ c with
    | ok shown =>
      rw [Outcome.ofExcept, Outcome.done_bind, failAt_of_segment hs]
      exact .terminal rfl hshown
    | error f => exact .unshown rfl hshown
  | cons q ps =>
    show MissesProperty σ h c p i told (.ok (q :: ps))
      (failAt (.noSuchProperty (qualifiedName (h.typeName c))) p i (some .noSuchProperty))
    rw [failAt_of_segment hs]
    exact .missing rfl (List.cons_ne_nil q ps)

theorem assignmentFault_missingFault {α : Type} (writing : Bool) (ps : List PropertyInfo) :
    (h.assignmentFault σ c p i (h.missingFault c name writing ps) : Outcome α) =
      h.propertyFault σ c p i (h.missingFault c name writing ps) := by
  rw [assignmentFault, missingFault]
  cases ps.isEmpty <;> exact if_neg (by rintro ⟨⟩)

theorem find?_name_eq_none (hnone : ∀ q ∈ ps, q.name ≠ name) :
    ps.find? (fun q => some q.name == some name) = none := by
  rw [List.find?_eq_none]
  intro q hq heq
  exact hnone q hq (Option.some.inj (eq_of_beq heq))

theorem readProperty_of_missing (hps : h.propertiesOf σ c = .ok ps)
    (hnone : ∀ q ∈ ps, q.name ≠ name) :
    h.readProperty σ c (some name) = .error (h.missingFault c name false ps) := by
  rw [readProperty, hps]
  dsimp only [Bind.bind, Except.bind]
  rw [missingFault, find?_name_eq_none hnone]
  dsimp only [segmentText, Option.getD_some]
  split
  · rfl
  · cases h.object? c <;> rfl

theorem writeProperty_of_missing (hps : h.propertiesOf σ c = .ok ps)
    (hnone : ∀ q ∈ ps.filter (·.writable), q.name ≠ name) :
    h.writeProperty σ c (some name) v =
      .error (h.missingFault c name true (ps.filter (·.writable)), h) := by
  rw [writeProperty, hps]
  dsimp only [Bind.bind, Except.bind, Except.mapError]
  rw [missingFault, find?_name_eq_none hnone]
  dsimp only [segmentText, Option.getD_some]
  split
  · rfl
  · cases h.object? c <;> rfl

theorem writeProperty_of_unlisted {f : Fault} (hps : h.propertiesOf σ c = .error f) :
    h.writeProperty σ c (some name) v = .error (f, h) := by
  rw [writeProperty, hps]
  rfl

/-- A step at a name that is no property. -/
theorem missesProperty_step (hc : h.IsObject c) (hs : p.segment i = .ok (some name))
    (hname : name ≠ "") (hnone : ∀ ps, h.propertiesOf σ c = .ok ps → ∀ q ∈ ps, q.name ≠ name) :
    MissesProperty σ h c p i (h.propertyFault σ c p i) (h.propertiesOf σ c)
      (h.step σ keys c p i) := by
  rw [step, hc.2, stepInto, propertyAt, (nameAt_eq_done hs).2 ⟨rfl, hname⟩, Outcome.done_bind]
  cases hps : h.propertiesOf σ c with
  | error f =>
    rw [(Raises.listing hps).readProperty]
    exact .unlisted rfl
  | ok ps =>
    rw [readProperty_of_missing hps (hnone ps hps)]
    exact missesProperty_propertyFault hs _ _ _

/-- The writable ones among listed properties. -/
def writableOf (listed : Except Fault (List PropertyInfo)) : Except Fault (List PropertyInfo) :=
  listed.map fun ps => ps.filter (·.writable)

/-- An assignment at a name that is no writable property, which changes nothing. -/
theorem missesProperty_put (σ : Schema) (keys : Option Deserializer) (v : Value)
    (hc : h.IsObject c) (hs : p.segment p.lastIndex = .ok (some name)) (hname : name ≠ "")
    (hnone : ∀ ps, h.propertiesOf σ c = .ok ps → ∀ q ∈ ps.filter (·.writable), q.name ≠ name) :
    MissesProperty σ h c p p.lastIndex (h.assignmentFault σ c p p.lastIndex)
        (writableOf (h.propertiesOf σ c)) (h.put σ keys c p v) ∧
      h.leftByPut σ c p v = h := by
  have hat := (nameAt_eq_done hs).2 ⟨rfl, hname⟩
  rw [put, leftByPut, hc.2, putInto, leftByPutInto, putProperty, leftByProperty, hat,
    Outcome.done_bind]
  dsimp only
  cases hps : h.propertiesOf σ c with
  | error f =>
    rw [writeProperty_of_unlisted hps]
    exact ⟨.unlisted rfl, rfl⟩
  | ok ps =>
    rw [writeProperty_of_missing hps (hnone ps hps)]
    dsimp only
    rw [assignmentFault_missingFault]
    exact ⟨missesProperty_propertyFault hs _ _ _, rfl⟩

/-! ## Private names -/

theorem ne_empty_of_private (hname : isPublic name = false) : name ≠ "" := by
  rintro rfl
  cases hname

theorem ne_of_private (hname : isPublic name = false) (hps : h.propertiesOf σ c = .ok ps) :
    ∀ q ∈ ps, q.name ≠ name := by
  rintro q hq rfl
  rw [isPublic_of_mem_propertiesOf hps hq] at hname
  cases hname

theorem segment_of_nameAt (hname : nameAt p i = .done name) : p.segment i = .ok (some name) := by
  cases hs : p.segment i with
  | error f =>
    rw [nameAt, hs] at hname
    cases hname
  | ok s =>
    obtain ⟨rfl, -⟩ := (nameAt_eq_done hs).1 hname
    rfl

/-- What is assigned at a name is one of the properties. -/
theorem exists_property_of_put (hc : h.classify c = .object) (hput : h.put σ keys c p v = .done h') :
    ∃ ps, h.propertiesOf σ c = .ok ps ∧ ∃ q ∈ ps, p.segment p.lastIndex = .ok (some q.name) := by
  rw [put, hc] at hput
  obtain ⟨name, hname, hwrite⟩ := putProperty_eq_done hput
  obtain ⟨a, type, attrs, ps, q, -, -, hps, hq, -, hqname, -⟩ := exists_assign_of_writeProperty hwrite
  cases hqname
  exact ⟨ps, hps, q, hq, segment_of_nameAt hname⟩

end Heap

namespace Walker

open Heap

variable (w : Walker) {σ : Schema} {h : Heap} {host c v : Value} {p : Path} {j : Int} {name : String}

/-- A write that fails where it assigns, and changes nothing there, leaves what the walk to the parent
has left. -/
theorem heap_writePath_of_put (hparent : h.parentOf σ w.keys host p = .done (c, j))
    (hnull : c.isNull = false)
    (hput : ∀ h', (h.leftByParent σ w.keys host p).put σ w.keys c p v ≠ .done h')
    (hleft : (h.leftByParent σ w.keys host p).leftByPut σ c p v = h.leftByParent σ w.keys host p) :
    (w.writePath σ h host p v).heap = h.leftByParent σ w.keys host p := by
  have hfailed (h' : Heap) : h.write σ w.keys host p v ≠ .done h' := by
    rw [write_of_parentOf hparent hnull]
    exact hput h'
  rw [w.heap_writePath_of_not_done hfailed, leftByWrite, hparent]
  dsimp only
  rw [hnull, if_neg Bool.false_ne_true, hleft]

/-- A name that starts with an underscore is missing from every object, for steps and for writes, and
such a write changes nothing but what the walk to the object has changed, which is no object.  What a
write assigns is a property of the object, which a step can reach, and a value without attributes has
no properties. -/
theorem writePath_private (hc : h.IsObject c) (hname : isPublic name = false) :
    (∀ p i, p.segment i = .ok (some name) →
        MissesProperty σ h c p i (h.propertyFault σ c p i) (h.propertiesOf σ c)
          (h.step σ w.keys c p i)) ∧
      (∀ host p v j, h.parentOf σ w.keys host p = .done (c, j) →
        p.segment p.lastIndex = .ok (some name) →
        let left := h.leftByParent σ w.keys host p
        left.IsObject c →
        MissesProperty σ left c p p.lastIndex (left.assignmentFault σ c p p.lastIndex)
            (writableOf (left.propertiesOf σ c)) (h.write σ w.keys host p v) ∧
          (w.writePath σ h host p v).heap = left ∧
          ∀ a type attrs, h.get? a = some (.object type attrs) →
            (w.writePath σ h host p v).heap.get? a = some (.object type attrs)) ∧
      (∀ p v h', h.put σ w.keys c p v = .done h' → ∃ ps, h.propertiesOf σ c = .ok ps ∧
        ∃ q ∈ ps, p.segment p.lastIndex = .ok (some q.name)) ∧
      ∀ s, h.propertiesOf σ (.scalar s) = .ok [] := by
  refine ⟨fun p i hs => ?_, ?_, fun p v h' hput => exists_property_of_put hc.2 hput, fun s => rfl⟩
  · exact missesProperty_step hc hs (ne_empty_of_private hname) fun ps => ne_of_private hname
  · intro host p v j hparent hs left hleft
    obtain ⟨hmisses, hkept⟩ := missesProperty_put σ w.keys v hleft hs
      (ne_empty_of_private hname)
      fun ps hps q hq => ne_of_private hname hps q (List.mem_of_mem_filter hq)
    have hheap : (w.writePath σ h host p v).heap = left := by
      refine w.heap_writePath_of_put hparent hleft.1 (fun h' => hmisses.ne_done fun f hf => ?_) hkept
      have hnone := congrArg Outcome.result? hf
      rw [result?_assignmentFault] at hnone
      cases hnone
    refine ⟨?_, hheap, fun a type attrs hget => ?_⟩
    · rw [write_of_parentOf hparent hleft.1]
      exact hmisses
    · rw [hheap]
      exact (addsDefaults_leftByParent σ h w.keys host p).get? hget (by rintro _ ⟨⟩)

/-- A valve with a public slot and a private one. -/
def valveSchema : Schema := ⟨[{ name := "Valve", slots := some ["level", "_raw"] }]⟩

/-- Such a valve. -/
def valve : Heap :=
  ⟨#[.object "Valve" [("level", .scalar (.int 1)), ("_raw", .scalar (.int 100))]]⟩

/-- The private slot is missing, for a step and for a write, though it holds a value. -/
theorem writePath_private_valve :
    let p := Path.parse "_raw"
    (∃ f, valve.step valveSchema none (.ref 0) p 0 = .fail f ∧ f.code = .noSuchProperty) ∧
      (∃ f, valve.write valveSchema none (.ref 0) p (.scalar .null) = .fail f ∧
        f.code = .noSuchProperty) ∧
      (writePath ⟨[], true, none⟩ valveSchema valve (.ref 0) p (.scalar .null)).heap = valve := by
  have hobject : valve.IsObject (.ref 0) := ⟨rfl, rfl⟩
  have hleft : valve.leftByParent valveSchema none (.ref 0) (Path.parse "_raw") = valve := by cbv
  have hget : valve.get? 0 =
      some (.object "Valve" [("level", .scalar (.int 1)), ("_raw", .scalar (.int 100))]) := rfl
  have hnames : valveSchema.properties "Valve"
      [("level", .scalar (.int 1)), ("_raw", .scalar (.int 100))] = [{ name := "level" }] := by cbv
  have hdict : valveSchema.computes "Valve" dictionaryName = false := by decide
  have hextras : valveSchema.computes "Valve" extrasName = false := by decide
  have hps : valve.propertiesOf valveSchema (.ref 0) = .ok [{ name := "level" }] :=
    (propertiesOf_of_get? hget hdict hextras).trans (congrArg Except.ok hnames)
  obtain ⟨hreads, hwrites, -⟩ := writePath_private (σ := valveSchema) ⟨[], true, none⟩ hobject
    (show isPublic "_raw" = false by decide)
  have hwrite := hwrites (.ref 0) (Path.parse "_raw") (.scalar .null) 0 (by cbv) (by cbv)
  dsimp only at hwrite
  rw [hleft] at hwrite
  obtain ⟨hmisses, hheap, -⟩ := hwrite hobject
  have hread := hreads (Path.parse "_raw") 0 (by cbv)
  rw [hps] at hread hmisses
  exact ⟨hread.code_eq (List.cons_ne_nil _ _), hmisses.code_eq (List.cons_ne_nil _ _), hheap⟩

/-- A record whose only attribute is private, and which cannot be shown, because it holds an integer
of too many digits.  And an object whose properties cannot be listed, because its class raises an
error when it is asked for extra values. -/
theorem unprintable_private_let_out :
    (let h := maskedList (.int leastUnprintable)
     h.IsObject (.ref 2) ∧ isPublic "_x" = false ∧
        h.step maskedSchema none (.ref 2) (Path.parse "_x") 0 = .escape .unprintableInteger ∧
        h.write maskedSchema none (.ref 2) (Path.parse "_x") (.scalar .null) =
          .escape .unprintableInteger) ∧
      account.IsObject (.ref 0) ∧ ∃ f,
        account.step accountSchema none (.ref 0) (Path.parse "_x") 0 = .fail f ∧
          account.write accountSchema none (.ref 0) (Path.parse "_x") (.scalar .null) = .fail f ∧
          f.code = .exception := by
  have hname : isPublic "_x" = false := by decide
  have hs : (Path.parse "_x").segment 0 = .ok (some "_x") := by cbv
  have hlast : (Path.parse "_x").lastIndex = 0 := by cbv
  have hstep {σ : Schema} {h : Heap} {c : Value} (hc : h.IsObject c) :
      MissesProperty σ h c (Path.parse "_x") 0 (h.propertyFault σ c (Path.parse "_x") 0)
        (h.propertiesOf σ c) (h.step σ none c (Path.parse "_x") 0) :=
    missesProperty_step hc hs (ne_empty_of_private hname) fun ps => ne_of_private hname
  have hwrite {σ : Schema} {h : Heap} {c : Value} (hc : h.IsObject c) :
      MissesProperty σ h c (Path.parse "_x") (Path.parse "_x").lastIndex
        (h.assignmentFault σ c (Path.parse "_x") (Path.parse "_x").lastIndex)
        (writableOf (h.propertiesOf σ c)) (h.write σ none c (Path.parse "_x") (.scalar .null)) := by
    have hsize : (Path.parse "_x").size = 1 := by cbv
    have hparent : h.parentOf σ none c (Path.parse "_x") = .done (c, 0) := by
      rw [parentOf, Path.parent?_eq_initial (by rw [hsize]; decide)]
      exact if_pos hsize
    have hleft : h.leftByParent σ none c (Path.parse "_x") = h := by
      rw [leftByParent, Path.parent?_eq_initial (by rw [hsize]; decide)]
      exact if_pos hsize
    rw [write_of_parentOf hparent hc.1, hleft]
    exact (missesProperty_put _ _ _ hc (by rwa [hlast]) (ne_empty_of_private hname)
      fun ps hps q hq => ne_of_private hname hps q (List.mem_of_mem_filter hq)).1
  refine ⟨?_, ⟨rfl, rfl⟩, ?_⟩
  · intro h
    have hobject : h.IsObject (.ref 2) := ⟨rfl, rfl⟩
    have hquoted : scalarQuoted (.int leastUnprintable) = .error .unprintableInteger := by
      have htext (n : Int) : (Scalar.int n).quoted? = integerText? n := rfl
      rw [scalarQuoted, htext, integerText?_leastUnprintable]
    have hshown : h.format maskedSchema (.ref 2) = .error .unprintableInteger :=
      (format_rec _).trans (text_rec hquoted)
    have hget : h.get? 2 = some (.object "Secret" [("_x", .ref 1)]) := rfl
    have hnone : maskedSchema.properties "Secret" [("_x", .ref 1)] = [] := by cbv
    have hps : h.propertiesOf maskedSchema (.ref 2) = .ok [] :=
      (propertiesOf_of_get? hget (by cbv) (by cbv)).trans (congrArg Except.ok hnone)
    have hmissed := hstep (σ := maskedSchema) hobject
    have hunwritten := hwrite (σ := maskedSchema) hobject
    rw [hps] at hmissed hunwritten
    exact ⟨hobject, hname, hmissed.eq_escape hshown, hunwritten.eq_escape hshown⟩
  · have hmissed := hstep (σ := accountSchema) (h := account) (c := .ref 0) ⟨rfl, rfl⟩
    have hunwritten := hwrite (σ := accountSchema) (h := account) (c := .ref 0) ⟨rfl, rfl⟩
    rw [propertiesOf_account] at hmissed hunwritten
    have htold {α : Type} : (account.propertyFault accountSchema (.ref 0) (Path.parse "_x") 0
        (.raised .valueError []) : Outcome α) =
          .fail ⟨.unexpected "ValueError()", Path.parse "_x", 0, some .valueError⟩ := by
      rw [propertyFault]
      exact failAt_of_segment hs _ _
    rw [hmissed.eq_told, hunwritten.eq_told, hlast]
    exact ⟨_, htold, htold, rfl⟩

end Walker

end Dotpath

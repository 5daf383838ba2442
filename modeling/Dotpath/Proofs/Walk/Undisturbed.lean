import Dotpath.Proofs.Scalar.Text
import Dotpath.Proofs.Walk.PutGet

/-!
# Reads that a write does not disturb

A write changes one slot.  A walk that leaves no container through this slot takes the same course
after the write as before it: it ends at the same value, or it fails at the same segment for the same
reason (`walk_store_sameCourse`).  What a failure shows of a value may have changed, for the text of
an object without properties depends on all that can be reached from it.  There may even be no text
any more, and the walk then lets a fault out instead of failing (`unprintable_integer_disturbs`).
-/

namespace Dotpath

namespace Outcome

variable {α β : Type}

/-- Whether two outcomes are the same up to the wording of a failure. -/
inductive SameCourse : Outcome α → Outcome α → Prop
  | done (a : α) : SameCourse (done a) (done a)
  | fail {f f' : Failure} (hcode : f.code = f'.code) (hpath : f.path = f'.path)
    (hsegment : f.segment = f'.segment) (hcause : f.cause = f'.cause) :
    SameCourse (fail f) (fail f')
  | escape (f : Fault) : SameCourse (escape f) (escape f)

theorem SameCourse.refl (x : Outcome α) : SameCourse x x := by
  cases x with
  | done a => exact .done a
  | fail f => exact .fail rfl rfl rfl rfl
  | escape f => exact .escape f

theorem SameCourse.of_eq {x y : Outcome α} (h : x = y) : SameCourse x y := h ▸ .refl x

theorem SameCourse.bind {x y : Outcome α} {f g : α → Outcome β} (hxy : SameCourse x y)
    (hfg : ∀ a, x = .done a → SameCourse (f a) (g a)) : SameCourse (x >>= f) (y >>= g) := by
  cases hxy with
  | done a => exact hfg a rfl
  | fail hcode hpath hsegment hcause => exact .fail hcode hpath hsegment hcause
  | escape f => exact .escape f

/-- Failures at one segment take the same course if they are of one code. -/
theorem sameCourse_failAt {problem problem' : Problem} (hcode : problem.code = problem'.code)
    (hnames : problem.namesSegment = problem'.namesSegment) (p : Path) (i : Int)
    (cause : Option FaultKind) :
    SameCourse (failAt problem p i cause : Outcome α) (failAt problem' p i cause) := by
  unfold failAt Failure.at?
  rw [← hnames]
  cases problem.namesSegment with
  | false => exact .fail hcode rfl rfl rfl
  | true =>
    cases p.segment i with
    | ok segment => exact .fail hcode rfl rfl rfl
    | error f => exact .escape f

end Outcome

namespace Heap

variable {σ : Schema} {h h' : Heap} {keys : Option Deserializer} {p : Path} {i : Int} {s : Slot}
  {a : Address} {c v : Value}

/-- Whether a value is an object without properties. -/
def IsBlank (σ : Schema) (h : Heap) (c : Value) : Prop :=
  (h.object? c).isSome = true ∧ h.propertiesOf σ c = .ok []

/-- Whether a message can show a value in both of two heaps, or meets the same fault in both. -/
def ShownAlike (σ : Schema) (h h' : Heap) (c : Value) : Prop :=
  ∀ f, h.format σ c = .error f ↔ h'.format σ c = .error f

/-! ## Values that show alike -/

theorem text_row (hh : h.IsOrdinary σ) (a : Address) (offset : Nat) (shape : List Nat) :
    h.text σ (.row a offset shape) = .ok "" := by
  obtain ⟨k, hk⟩ := fuel_eq_add_two σ h (.row a offset shape)
  rw [text, hk, textWith, gridText]
  split
  · next hn => exact (hh hn).elim
  · rfl

theorem format_of_not_object (hc : h.object? c = none) : h.format σ c = h.text σ c := by
  rw [format, hc]

theorem text_of_get?_eq_none (hn : h.get? a = none) : h.text σ (.ref a) = .ok "" := by
  obtain ⟨k, hk⟩ := fuel_eq_add_two σ h (.ref a)
  rw [text, hk, textWith, hn]
  dsimp only
  rw [quotedWith, hn]

theorem object?_store_eq_none (hc : h.object? c = none) : (h.store s v).object? c = none := by
  cases c with
  | ref a =>
    rw [object?] at hc ⊢
    rcases get?_store h s v a with hsame | ⟨n, hn, hput⟩
    · rw [hsame]
      exact hc
    · rw [hn] at hc
      rw [hput]
      cases n with
      | object => cases hc
      | _ => cases s <;> rfl
  | _ => rfl

theorem get?_store_eq_none (hn : h.get? a = none) : (h.store s v).get? a = none := by
  rcases get?_store h s v a with hsame | ⟨n, hn', -⟩
  · rw [hsame, hn]
  · rw [hn] at hn'
    cases hn'

/-- A value that is taken for an object, but is none, shows alike after a store. -/
theorem shownAlike_store (hh : h.IsOrdinary σ) (hkind : h.classify c = .object)
    (hc : h.object? c = none) : h.ShownAlike σ (h.store s v) c := by
  have htext : h.text σ c = (h.store s v).text σ c := by
    cases c with
    | scalar x => rw [text_scalar, text_scalar]
    | row a offset shape => rw [text_row hh, text_row (hh.store s v)]
    | ref a =>
      cases hn : h.get? a with
      | none => rw [text_of_get?_eq_none hn, text_of_get?_eq_none (get?_store_eq_none hn)]
      | some n =>
        rw [classify_ref hh, hn] at hkind
        have hord := hh hn
        cases n with
        | object => rw [object?, hn] at hc; cases hc
        | list | deque | dict => cases hkind
        | _ => exact hord.elim
    | tuple | named | frozenSet | range => cases hkind
  intro f
  rw [format_of_not_object hc, format_of_not_object (object?_store_eq_none hc), htext]

/-! ## Failures -/

theorem terminalAt_sameCourse (hc : h.ShownAlike σ h' c) :
    (h.terminalAt σ c p i : Outcome Value).SameCourse (h'.terminalAt σ c p i) := by
  rw [terminalAt, terminalAt]
  cases ht : h.format σ c with
  | error f =>
    rw [(hc f).1 ht]
    exact .escape f
  | ok t =>
    cases ht' : h'.format σ c with
    | error f =>
      rw [(hc f).2 ht'] at ht
      cases ht
    | ok t' =>
      dsimp only [Outcome.ofExcept, Outcome.done_bind]
      exact Outcome.sameCourse_failAt (by rfl) (by rfl) p i none

theorem propertyFault_sameCourse (htype : h.typeName c = h'.typeName c) {f : Fault}
    (hc : f.kind = .noAccessibleProperties → h.ShownAlike σ h' c) :
    (h.propertyFault σ c p i f : Outcome Value).SameCourse (h'.propertyFault σ c p i f) := by
  unfold propertyFault
  split
  · next hkind => exact terminalAt_sameCourse (hc hkind)
  · rw [htype]
    exact .refl _
  · exact .refl _

/-! ## Steps -/

theorem member?_eq_load (hh : h.IsOrdinary σ) (hkind : h.classify (.ref a) = .sequence) (n : Nat) :
    h.member? (.ref a) n = h.load σ (.item a n) := by
  rw [classify_ref hh] at hkind
  rw [member?, load, Slot.address]
  split at hkind
  · next hn =>
    rw [hn]
    rfl
  · next hn =>
    rw [hn]
    rfl
  · cases hkind
  · cases hkind

theorem length_store (hh : h.IsOrdinary σ) (hkind : h.classify (.ref a) = .sequence) :
    (h.store s v).length (.ref a) = h.length (.ref a) := by
  rw [classify_ref hh] at hkind
  rw [length, length]
  rcases get?_store h s v a with hsame | ⟨n, hn, hput⟩
  · rw [hsame]
    split at hkind
    · next hn => rw [hn]; rfl
    · next hn => rw [hn]; rfl
    · cases hkind
    · cases hkind
  · rw [hn, hput]
    rw [hn] at hkind
    cases n with
    | list items | deque items =>
      cases s with
      | item b m =>
        dsimp only [Node.putSlot, nodeLength, nodeMembers]
        rw [List.length_set]
      | _ => rfl
    | _ => cases hkind

theorem lookUp_eq_load (hh : h.IsOrdinary σ) (hkind : h.classify (.ref a) = .mapping) (k : Value) :
    (h.lookUp (.ref a) k).1 = .ok (h.load σ (.entry a k)) := by
  rw [classify_ref hh] at hkind
  split at hkind
  · cases hkind
  · cases hkind
  · next type es hn =>
    rw [lookUp_of_dict hn, load, Slot.address, hn]
    rfl
  · cases hkind

theorem typeName_store : (h.store s v).typeName c = h.typeName c := by
  cases c with
  | ref a =>
    rw [typeName, typeName]
    rcases get?_store h s v a with hsame | ⟨n, hn, hput⟩
    · rw [hsame]
    · rw [hn, hput]
      cases n <;> cases s <;> rfl
  | _ => rfl

/-- Two heaps in which a container has the same length and the same members give the same step. -/
theorem memberAt_congr (hlength : h.length c = h'.length c)
    (hrun : ∀ n, h.interruption? c n = h'.interruption? c n)
    (hmember : ∀ n, indexAt p i = .done n → h.member? c n = h'.member? c n) :
    h.memberAt c p i = h'.memberAt c p i := by
  rw [memberAt, memberAt]
  cases hn : indexAt p i with
  | done n => rw [hlength, Outcome.done_bind, Outcome.done_bind, hrun n, hmember n hn]
  | fail f => rfl
  | escape f => rfl

theorem entryAt_congr
    (hfind : ∀ k, mapKey keys p i = .done k → (h.lookUp c k).1 = (h'.lookUp c k).1) :
    h.entryAt keys c p i = h'.entryAt keys c p i := by
  rw [entryAt, entryAt]
  cases hk : mapKey keys p i with
  | done k =>
    dsimp only [Outcome.done_bind]
    rw [hfind k hk]
  | fail f => rfl
  | escape f => rfl

/-- A store in a property that is there changes no other property, and not whether there is one. -/
theorem readProperty_store_object {type name m : String} {attrs : List (String × Value)}
    (hplain : σ.IsPlainClass type) (hn : h.get? a = some (.object type attrs))
    (hn' : h'.get? a = some (.object type (putAttribute attrs m v)))
    (hm : σ.hasProperty type attrs m = true) (hne : m ≠ name) :
    h'.readProperty σ (.ref a) (some name) = h.readProperty σ (.ref a) (some name) := by
  rw [readProperty_eq hplain hn, readProperty_eq hplain hn', Schema.hasProperty_put_of_ne hne,
    Schema.attribute?_put_of_ne hne, Schema.isEmpty_of_hasProperty hm,
    Schema.isEmpty_of_hasProperty (Schema.hasProperty_put_self hm v)]

theorem readProperty_store (hh : h.IsOrdinary σ) {n : Node} {name : String}
    (hn : h.get? s.address = some n) (hslot : n.hasSlot σ s = true)
    (hne : ∀ a, c = .ref a → s ≠ .property a name) :
    (h.store s v).readProperty σ c (some name) = h.readProperty σ c (some name) := by
  cases hc : h.object? c with
  | none =>
    rw [readProperty_of_not_object hc, readProperty_of_not_object (object?_store_eq_none hc),
      typeName_store]
  | some o =>
    obtain ⟨a, type, attrs⟩ := o
    obtain ⟨rfl, ha⟩ := get?_of_object? hc
    by_cases haddr : s.address = a
    · subst haddr
      rw [hn] at ha
      cases ha
      have hput := get?_store_self hn v
      cases s with
      | property b m =>
        exact readProperty_store_object (hh hn) hn hput hslot fun hm => hne b rfl (by rw [hm])
      | item | entry => cases hslot
    · rw [readProperty_eq (hh ha) ha, readProperty_eq (hh ha) ((get?_store_of_ne haddr v).trans ha)]

/-- An object on which a read finds no properties has none. -/
theorem isBlank_of_readProperty (hh : h.IsOrdinary σ) {name : String} {f : Fault}
    (hc : (h.object? c).isSome = true) (hread : h.readProperty σ c (some name) = .error f)
    (hf : f.kind = .noAccessibleProperties) : h.IsBlank σ c := by
  refine ⟨hc, ?_⟩
  obtain ⟨⟨a, type, attrs⟩, hobj⟩ := Option.isSome_iff_exists.1 hc
  obtain ⟨rfl, hn⟩ := get?_of_object? hobj
  have hplain : σ.IsPlainClass type := hh hn
  rw [readProperty_eq hplain hn] at hread
  rw [propertiesOf_of_get? hn (hplain.computes_eq_false _) (hplain.computes_eq_false _)]
  split at hread
  · next hempty => rw [List.isEmpty_iff.1 hempty]
  · split at hread
    · split at hread
      · cases hread
      · cases hread
        cases hf
    · cases hread
      cases hf

theorem propertyAt_store_sameCourse (hh : h.IsOrdinary σ) {n : Node}
    (hn : h.get? s.address = some n) (hslot : n.hasSlot σ s = true)
    (hkind : h.classify c = .object) (hne : h.slotAt? keys c p i ≠ some s)
    (hshown : h.IsBlank σ c → h.ShownAlike σ (h.store s v) c) :
    (h.propertyAt σ c p i).SameCourse ((h.store s v).propertyAt σ c p i) := by
  refine .bind (.refl (nameAt p i)) fun name hname => ?_
  have hread : (h.store s v).readProperty σ c (some name) = h.readProperty σ c (some name) := by
    refine readProperty_store hh hn hslot ?_
    rintro a rfl hs
    refine hne ?_
    rw [slotAt?, hkind, hname, hs]
    rfl
  rw [hread]
  cases hr : h.readProperty σ c (some name) with
  | ok w => exact .done w
  | error f =>
    refine propertyFault_sameCourse typeName_store.symm ?_
    intro hf
    cases hc : h.object? c with
    | none => exact shownAlike_store hh hkind hc
    | some o => exact hshown (isBlank_of_readProperty hh (by rw [hc]; rfl) hr hf)

/-- The kinds of ordinary containers. -/
theorem classify_cases (hh : h.IsOrdinary σ) (c : Value) :
    h.classify c = .sequence ∨ h.classify c = .mapping ∨ h.classify c = .object := by
  cases c with
  | ref a =>
    rw [classify_ref hh]
    split <;> simp
  | row a offset shape => exact .inr (.inr (classify_row hh a offset shape))
  | scalar => exact .inr (.inr rfl)
  | tuple | named | frozenSet | range => exact .inl rfl

/-- A step that denotes another slot, or none, takes the same course after a store. -/
theorem step_store_sameCourse (hh : h.IsOrdinary σ) {n : Node}
    (hn : h.get? s.address = some n) (hslot : n.hasSlot σ s = true)
    (hs : s.isSimple = true) (hkeys : SimpleKeys keys) (hne : h.slotAt? keys c p i ≠ some s)
    (hshown : h.IsBlank σ c → h.ShownAlike σ (h.store s v) c) :
    (h.step σ keys c p i).SameCourse ((h.store s v).step σ keys c p i) := by
  have hload {t : Slot} (ht : h.slotAt? keys c p i = some t) :
      h.load σ t = (h.store s v).load σ t :=
    (load_store_of_ne hs (isSimple_of_slotAt? hkeys ht) (fun hst => hne (hst ▸ ht)) v).symm
  rw [step, step, classify_store]
  rcases classify_cases hh c with hkind | hkind | hkind
  · rw [hkind]
    refine .of_eq ?_
    cases c with
    | ref a =>
      refine memberAt_congr (length_store hh hkind).symm (fun m => ?_) fun m hm => ?_
      · rw [hh.interruption?_eq_none, IsOrdinary.interruption?_eq_none (hh.store s v)]
      rw [member?_eq_load hh hkind,
        member?_eq_load (hh.store s v) ((classify_store h s v _).trans hkind)]
      refine hload ?_
      rw [slotAt?, hkind, hm]
      rfl
    | tuple | named | frozenSet | range => rfl
    | scalar => cases hkind
    | row a offset shape => cases (classify_row hh a offset shape).symm.trans hkind
  · rw [hkind]
    refine .of_eq ?_
    cases c with
    | ref a =>
      refine entryAt_congr fun k hk => ?_
      rw [lookUp_eq_load hh hkind,
        lookUp_eq_load (hh.store s v) ((classify_store h s v _).trans hkind)]
      refine congrArg Except.ok (hload ?_)
      rw [slotAt?, hkind, hk]
      rfl
    | row a offset shape => cases (classify_row hh a offset shape).symm.trans hkind
    | _ => cases hkind
  · rw [hkind]
    exact propertyAt_store_sameCourse hh hn hslot hkind hne hshown

/-! ## Walks -/

/-- A walk that leaves no container through a slot takes the same course after a store there. -/
theorem walk_store_sameCourse (hh : h.IsOrdinary σ) {n : Node}
    (hn : h.get? s.address = some n) (hslot : n.hasSlot σ s = true)
    (hs : s.isSimple = true) (hkeys : SimpleKeys keys) {u : Value}
    (hfree : ∀ j, (s, j) ∉ h.exits σ keys u p i)
    (hshown : ∀ c j, (c, j) ∈ h.trail σ keys u p i → h.IsBlank σ c →
      h.ShownAlike σ (h.store s v) c) :
    (h.walk σ keys u p i).SameCourse ((h.store s v).walk σ keys u p i) := by
  induction hm : (p.size - i).toNat generalizing u i with
  | zero =>
    rw [walk_of_le (by omega), walk_of_le (by omega)]
    exact .done u
  | succ m ih =>
    have hi : i < p.size := by omega
    cases hu : u.isNull with
    | true =>
      rw [walk_of_isNull hi hu, walk_of_isNull hi hu]
      exact .refl _
    | false =>
      have hhere : (u, i) ∈ h.trail σ keys u p i := (mem_trail_iff hh).2 ⟨hi, hu, .inl ⟨rfl, rfl⟩⟩
      have hne : h.slotAt? keys u p i ≠ some s :=
        fun hus => hfree i (mem_exits_iff.2 ⟨u, hhere, hus⟩)
      rw [walk_of_lt hi hu, walk_of_lt hi hu, hh.leftByStep, IsOrdinary.leftByStep (hh.store s v)]
      refine .bind (step_store_sameCourse hh hn hslot hs hkeys hne (hshown u i hhere))
        fun w hw => ?_
      have hlater {c : Value} {j : Int} (hc : (c, j) ∈ h.trail σ keys w p (i + 1)) :
          (c, j) ∈ h.trail σ keys u p i := (mem_trail_iff hh).2 ⟨hi, hu, .inr ⟨w, hw, hc⟩⟩
      refine ih (fun j hj => ?_) (fun c j hc => hshown c j (hlater hc)) (by omega)
      obtain ⟨c, hc, hcs⟩ := mem_exits_iff.1 hj
      exact hfree j (mem_exits_iff.2 ⟨c, hlater hc, hcs⟩)

end Heap

namespace Walker

variable (w : Walker) {σ : Schema} {h : Heap} {host start v : Value} {p q : Path}

/-- A walk that does not look at the slot that a write changes takes the same course after the write,
if objects without properties on its way show alike before and after it. -/
theorem walk_writePath_sameCourse (hh : h.IsOrdinary σ) (hkeys : SimpleKeys w.keys)
    (hwritten : (w.writePath σ h host p v).result = .ok true)
    (hfree : ∀ s j, (s, p.lastIndex) ∈ h.exits σ w.keys host p 0 →
      (s, j) ∉ h.exits σ w.keys start q 0)
    (hshown : ∀ c j, (c, j) ∈ h.trail σ w.keys start q 0 → h.IsBlank σ c →
      h.ShownAlike σ (w.writePath σ h host p v).heap c) :
    (h.walk σ w.keys start q 0).SameCourse
      ((w.writePath σ h host p v).heap.walk σ w.keys start q 0) := by
  obtain ⟨t, s, n, ht, hs, hn, hslot, hstore⟩ :=
    Heap.write_eq_done hh hkeys.segmentOnly (w.write_eq_done_of_writePath hwritten)
  have hlast := Heap.mem_exits_iff.2 ⟨t, ht, hs⟩
  rw [hstore] at hshown ⊢
  exact Heap.walk_store_sameCourse hh hn hslot (Heap.isSimple_of_slotAt? hkeys hs) hkeys
    (fun j => hfree s j hlast) hshown

/-! ## A record that shows a list -/

/-- A list that lies in a dictionary, and in a record without public attributes. -/
def maskedList (x : Scalar) : Heap :=
  ⟨#[.dict .plain [(.scalar (.text "box"), .ref 1), (.scalar (.text "rec"), .ref 2)],
    .list [.scalar x], .object "Secret" [("_x", .ref 1)]]⟩

/-- The class of this record. -/
def maskedSchema : Schema :=
  ⟨[{ name := "Secret", kind := .record, fields := [{ name := "_x", declared := .named "list" }] }]⟩

theorem maskedList_ordinary (x : Scalar) : (maskedList x).IsOrdinary maskedSchema := by
  have hplain : maskedSchema.IsPlainClass "Secret" :=
    Schema.isPlainClass_of_isEmpty (by decide) (by decide)
  have hnodes : ∀ n ∈ (maskedList x).nodes.toList, n.IsOrdinary maskedSchema := by
    simp [maskedList, Node.IsOrdinary, hplain]
  intro a n hn
  exact Heap.isOrdinary_iff.2 hnodes hn

theorem exits_box (x : Scalar) :
    (maskedList x).exits maskedSchema none (.ref 0) (Path.parse "box.0") 0 =
      [(.entry 0 (.scalar (.text "box")), 0), (.item 1 0, 1)] := by cbv

theorem exits_rec :
    (maskedList (.int 0)).exits maskedSchema none (.ref 0) (Path.parse "rec.a") 0 =
      [(.entry 0 (.scalar (.text "rec")), 0), (.property 2 "a", 1)] := by cbv

/-- The walk into the record never looks at the item of the list. -/
theorem maskedList_free (s : Slot) (j : Int)
    (hs : (s, (Path.parse "box.0").lastIndex) ∈
      (maskedList (.int 0)).exits maskedSchema none (.ref 0) (Path.parse "box.0") 0) :
    (s, j) ∉ (maskedList (.int 0)).exits maskedSchema none (.ref 0) (Path.parse "rec.a") 0 := by
  have hlast : (Path.parse "box.0").lastIndex = 1 := by cbv
  rw [hlast, exits_box] at hs
  rw [exits_rec]
  obtain rfl : s = .item 1 0 := by simpa using hs
  simp

theorem heap_writePath_box (x : Scalar) (n : Int) :
    (writePath ⟨[], true, none⟩ maskedSchema (maskedList x) (.ref 0) (Path.parse "box.0")
      (.scalar (.int n))).heap = maskedList (.int n) := by cbv

theorem result_writePath_box (x : Scalar) (n : Int) :
    (writePath ⟨[], true, none⟩ maskedSchema (maskedList x) (.ref 0) (Path.parse "box.0")
      (.scalar (.int n))).result = .ok true := by cbv

/-- The walk ends at the record, which has no properties. -/
theorem walk_rec (x : Scalar) :
    (maskedList x).walk maskedSchema none (.ref 0) (Path.parse "rec.a") 0 =
      (maskedList x).terminalAt maskedSchema (.ref 2) (Path.parse "rec.a") 1 := by
  have hsize : (Path.parse "rec.a").size = 2 := by cbv
  have hfirst : (maskedList x).step maskedSchema none (.ref 0) (Path.parse "rec.a") 0 =
      .done (.ref 2) := by cbv
  have hname : Heap.nameAt (Path.parse "rec.a") 1 = .done "a" := by cbv
  have hread : (maskedList x).readProperty maskedSchema (.ref 2) (some "a") =
      .error (.noProperties "Secret" false) := by cbv
  have hsecond : (maskedList x).step maskedSchema none (.ref 2) (Path.parse "rec.a") 1 =
      (maskedList x).terminalAt maskedSchema (.ref 2) (Path.parse "rec.a") 1 := by
    rw [Heap.step, show (maskedList x).classify (.ref 2) = .object from rfl, Heap.stepInto,
      Heap.propertyAt, hname, Outcome.done_bind, hread]
    rfl
  rw [Heap.walk_of_lt (by rw [hsize]; decide) rfl, hfirst, Outcome.done_bind,
    Heap.IsOrdinary.leftByStep (maskedList_ordinary x),
    Heap.walk_of_lt (by rw [hsize]; decide) rfl, Int.zero_add, hsecond]
  cases (maskedList x).terminalAt maskedSchema (.ref 2) (Path.parse "rec.a") 1 with
  | done w => exact Heap.walk_of_le (by rw [hsize]; decide)
  | fail f => rfl
  | escape f => rfl

theorem quoted_box {x : Scalar} {f : Fault} (hx : scalarQuoted x = .error f) :
    (maskedList x).quotedWith maskedSchema 28 [2] (.ref 1) = .error f := by
  have hget : (maskedList x).get? 1 = some (.list [.scalar x]) := rfl
  have hitem : (maskedList x).quotedWith maskedSchema 27 [1, 2] (.scalar x) = .error f := by
    rw [Heap.quotedWith, hx]
  rw [Heap.quotedWith, hget]
  dsimp only
  rw [if_neg (by decide), List.mapM_cons, hitem]
  rfl

/-- Messages show the record as its class does. -/
theorem format_rec (x : Scalar) :
    (maskedList x).format maskedSchema (.ref 2) = (maskedList x).text maskedSchema (.ref 2) := by
  have hobj : (maskedList x).object? (.ref 2) = some (2, "Secret", [("_x", .ref 1)]) := rfl
  rw [Heap.format, hobj]
  exact if_neg (by decide)

/-- The record has no text if the item of the list has none. -/
theorem text_rec {x : Scalar} {f : Fault} (hx : scalarQuoted x = .error f) :
    (maskedList x).text maskedSchema (.ref 2) = .error f := by
  have hfuel : (maskedList x).fuel maskedSchema (.ref 2) = 30 := by cbv
  have hget : (maskedList x).get? 2 = some (.object "Secret" [("_x", .ref 1)]) := rfl
  have hattribute : (maskedList x).attributeWith maskedSchema 28 2 "_x" = .ok (.ref 1) := by cbv
  have hfixed : maskedSchema.fixedText? "Secret" = none := by decide
  have hmodel : maskedSchema.isModel "Secret" = false := by decide
  have hnames : maskedSchema.textNames "Secret" [("_x", .ref 1)] = ["_x"] := by decide
  rw [Heap.text, hfuel, Heap.textWith, hget]
  dsimp only
  rw [hfixed, hmodel]
  dsimp only
  rw [if_neg Bool.false_ne_true, Heap.quotedWith, hget]
  dsimp only
  rw [if_neg (by decide), if_pos (by decide), hnames, List.mapM_cons, hattribute]
  dsimp only [Bind.bind, Except.bind]
  rw [quoted_box hx]

/-- A record without public attributes is the end of a path, and the failure shows it; but an integer
of too many digits, written to a list that the record holds, lets a fault out instead. -/
theorem unprintable_integer_disturbs :
    let h := maskedList (.int 0)
    let r := writePath ⟨[], true, none⟩ maskedSchema h (.ref 0) (Path.parse "box.0")
      (.scalar (.int leastUnprintable))
    h.IsOrdinary maskedSchema ∧ r.result = .ok true ∧
      (∀ s j, (s, (Path.parse "box.0").lastIndex) ∈
          h.exits maskedSchema none (.ref 0) (Path.parse "box.0") 0 →
        (s, j) ∉ h.exits maskedSchema none (.ref 0) (Path.parse "rec.a") 0) ∧
      (∃ f, h.walk maskedSchema none (.ref 0) (Path.parse "rec.a") 0 = .fail f ∧
        f.code = .terminalValue ∧ f.segment = 1) ∧
      r.heap.walk maskedSchema none (.ref 0) (Path.parse "rec.a") 0 =
        .escape .unprintableInteger := by
  refine ⟨maskedList_ordinary _, result_writePath_box _ _, maskedList_free,
    ⟨⟨.terminalValue "Secret" "Secret(_x=[0])", Path.parse "rec.a", 1, none⟩, by cbv, rfl, rfl⟩, ?_⟩
  have hquoted : scalarQuoted (.int leastUnprintable) = .error .unprintableInteger := by
    have htext (n : Int) : (Scalar.int n).quoted? = integerText? n := rfl
    rw [scalarQuoted, htext, integerText?_leastUnprintable]
  rw [heap_writePath_box, walk_rec, Heap.terminalAt, format_rec, text_rec hquoted]
  rfl

/-- The failure shows the record after the write too, with another text. -/
theorem walk_writePath_sameCourse_shown :
    let h := maskedList (.int 0)
    let r := writePath ⟨[], true, none⟩ maskedSchema h (.ref 0) (Path.parse "box.0")
      (.scalar (.int 7))
    (h.walk maskedSchema none (.ref 0) (Path.parse "rec.a") 0).SameCourse
      (r.heap.walk maskedSchema none (.ref 0) (Path.parse "rec.a") 0) := by
  refine walk_writePath_sameCourse _ (maskedList_ordinary _) (.inl rfl) (result_writePath_box _ _)
    maskedList_free ?_
  have htrail : (maskedList (.int 0)).trail maskedSchema none (.ref 0) (Path.parse "rec.a") 0 =
      [(.ref 0, 0), (.ref 2, 1)] := by cbv
  have hbefore : (maskedList (.int 0)).text maskedSchema (.ref 2) = .ok "Secret(_x=[0])" := by cbv
  have hafter : (maskedList (.int 7)).text maskedSchema (.ref 2) = .ok "Secret(_x=[7])" := by cbv
  intro c j hc hblank f
  rw [htrail] at hc
  obtain ⟨rfl, -⟩ | ⟨rfl, -⟩ : c = .ref 0 ∧ j = 0 ∨ c = .ref 2 ∧ j = 1 := by simpa using hc
  · cases hblank.1
  · rw [heap_writePath_box, format_rec, format_rec, hbefore, hafter]
    exact iff_of_false (by rintro ⟨⟩) (by rintro ⟨⟩)

end Walker

end Dotpath

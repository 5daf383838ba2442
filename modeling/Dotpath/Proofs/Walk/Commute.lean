import Dotpath.Proofs.Walk.Batch
import Dotpath.Proofs.Walk.Overwrite
import Dotpath.Proofs.Walk.Undisturbed

/-!
# Writes that may change places

Two writes of a batch may change places if their paths address different slots and the way to the one
slot does not come to the other (`Heap.Apart`).  Then each write is done or refused as it is alone,
and both orders leave the same heap, but for the order of what is new (`writeValues_comm`).

Three things must be said besides (`writeValues_disturbed`).  A declared type may look into a
container that the other write changes.  A failure may show what the other write changes, and let a
fault out instead, which ends the batch.  And a slot on the way counts also where nothing is in it
yet.
-/

namespace Dotpath

namespace Heap

variable {σ : Schema} {h h' : Heap} {keys : Option Deserializer} {host v x : Value} {p q : Path}
  {s t : Slot}

/-! ## The slot that a write fills -/

/-- The slot that a write along a path fills; nothing where the write is not done. -/
def filled? (σ : Schema) (h : Heap) (keys : Option Deserializer) (host : Value) (p : Path)
    (v : Value) : Option Slot :=
  (h.place? σ keys host p).filter fun s => (h.accepts? σ s).any fun d => h.isAssignable σ d v

/-- The heap that a write along a path leaves. -/
def written (σ : Schema) (h : Heap) (keys : Option Deserializer) (host : Value) (p : Path)
    (v : Value) : Heap :=
  (h.filled? σ keys host p v).elim h fun s => h.store s v

theorem filled?_eq_some : h.filled? σ keys host p v = some s ↔
    h.place? σ keys host p = some s ∧
      ∃ d, h.accepts? σ s = some d ∧ h.isAssignable σ d v = true := by
  simp [filled?, Option.filter_eq_some_iff, Option.any_eq_true]

theorem written_of_none (hp : h.filled? σ keys host p v = none) :
    h.written σ keys host p v = h := by
  rw [written, hp, Option.elim_none]

theorem written_of_some (hp : h.filled? σ keys host p v = some s) :
    h.written σ keys host p v = h.store s v := by
  rw [written, hp, Option.elim_some]

theorem result?_write_eq_map (hh : h.IsOrdinary σ) (v : Value) :
    (h.write σ keys host p v).result? =
      (h.filled? σ keys host p v).map fun s => h.store s v := by
  rw [result?_write hh, filled?]
  cases h.place? σ keys host p with
  | none => rfl
  | some s =>
    rw [Option.bind_some, storeChecked?, Option.filter_some]
    cases h.accepts? σ s with
    | none => rfl
    | some d =>
      rw [Option.bind_some, Option.any_some]
      split <;> rfl

theorem isOrdinary_written (hh : h.IsOrdinary σ) (keys : Option Deserializer) (host : Value)
    (p : Path) (v : Value) : (h.written σ keys host p v).IsOrdinary σ := by
  rw [Heap.written]
  cases h.filled? σ keys host p v with
  | none => exact hh
  | some s => exact hh.store s v

/-! ## Writes that are apart -/

/-- Whether the way to the slot of a path does not come to the slot of another path. -/
def Spares (σ : Schema) (h : Heap) (keys : Option Deserializer) (host : Value) (p q : Path) : Prop :=
  ∀ t k, h.place? σ keys host q = some t → (t, k) ∈ h.exits σ keys host p 0 → p.lastIndex ≤ k

/-- Whether two paths address different slots, and the way to the one does not come to the other. -/
structure Apart (σ : Schema) (h : Heap) (keys : Option Deserializer) (host : Value) (p q : Path) :
    Prop where
  ne : ∀ s, h.place? σ keys host p = some s → h.place? σ keys host q ≠ some s
  left : h.Spares σ keys host p q
  right : h.Spares σ keys host q p

/-- Whether a value is of the declared type of the slot of a path in one heap as in another. -/
def TypedAlike (σ : Schema) (h : Heap) (keys : Option Deserializer) (host : Value) (p : Path)
    (v : Value) (h' : Heap) : Prop :=
  ∀ s d, h.place? σ keys host p = some s → h.accepts? σ s = some d →
    h'.isAssignable σ d v = h.isAssignable σ d v

theorem apart_of_place? (hs : h.place? σ keys host p = some s)
    (ht : h.place? σ keys host q = some t) (hne : s ≠ t)
    (hp : ∀ k, (t, k) ∉ h.exits σ keys host p 0) (hq : ∀ k, (s, k) ∉ h.exits σ keys host q 0) :
    h.Apart σ keys host p q where
  ne r hr hr' := hne (Option.some.inj ((hs.symm.trans hr).trans (hr'.symm.trans ht)))
  left r k hr hk := by
    rw [ht] at hr
    cases hr
    exact absurd hk (hp k)
  right r k hr hk := by
    rw [hs] at hr
    cases hr
    exact absurd hk (hq k)

/-- Items and entries have no declared type. -/
theorem typedAlike_of_place? (hs : h.place? σ keys host p = some s)
    (hne : ∀ a name, s ≠ .property a name) : h.TypedAlike σ keys host p v h' := by
  intro t d ht hd
  obtain rfl : s = t := Option.some.inj (hs.symm.trans ht)
  rw [eq_none_of_accepts? hd hne]
  rfl

/-- A write fills the same slot, or none, after another write. -/
theorem filled?_written (hh : h.IsOrdinary σ) (hkeys : SimpleKeys keys)
    (hpq : h.Spares σ keys host p q)
    (htyped : h.TypedAlike σ keys host p v (h.written σ keys host q x)) :
    (h.written σ keys host q x).filled? σ keys host p v = h.filled? σ keys host p v := by
  cases hq : h.filled? σ keys host q x with
  | none => rw [written_of_none hq]
  | some t =>
    obtain ⟨ht, d, hd, -⟩ := filled?_eq_some.1 hq
    rw [written_of_some hq] at htyped ⊢
    have hplace : (h.store t x).place? σ keys host p = h.place? σ keys host p :=
      place?_store hh hkeys (isSimple_of_place? hkeys ht) x fun k => hpq t k ht
    rw [filled?, filled?, hplace]
    cases hs : h.place? σ keys host p with
    | none => rfl
    | some s =>
      rw [Option.filter_some, Option.filter_some, accepts?_store hh hd]
      cases he : h.accepts? σ s with
      | none => rfl
      | some e => rw [Option.any_some, Option.any_some, htyped s e hs he]

/-- Writes that are apart may change places. -/
theorem written_comm (hh : h.IsOrdinary σ) (hkeys : SimpleKeys keys)
    (hpq : h.Apart σ keys host p q)
    (hp : h.TypedAlike σ keys host p v (h.written σ keys host q x))
    (hq : h.TypedAlike σ keys host q x (h.written σ keys host p v)) :
    h.AlikeButNew ((h.written σ keys host p v).written σ keys host q x)
      ((h.written σ keys host q x).written σ keys host p v) := by
  have hp' := filled?_written hh hkeys hpq.left hp
  have hq' := filled?_written hh hkeys hpq.right hq
  cases hs : h.filled? σ keys host p v with
  | none =>
    rw [hs] at hp'
    rw [written_of_none hs, written_of_none hp']
    exact .inl rfl
  | some s =>
    cases ht : h.filled? σ keys host q x with
    | none =>
      rw [ht] at hq'
      rw [written_of_none ht, written_of_none hq']
      exact .inl rfl
    | some t =>
      obtain ⟨hs', -⟩ := filled?_eq_some.1 hs
      obtain ⟨ht', -⟩ := filled?_eq_some.1 ht
      have hne : s ≠ t := fun hst => hpq.ne s hs' (hst ▸ ht')
      rw [hs] at hp'
      rw [ht] at hq'
      rw [written_of_some hp', written_of_some hq', written_of_some hs, written_of_some ht]
      exact store_comm (isSimple_of_place? hkeys hs') (isSimple_of_place? hkeys ht') hne v x

end Heap

namespace Walker

variable (w : Walker) {σ : Schema} {h : Heap} {host v x : Value} {p q : Path}

/-! ## Single writes -/

theorem heap_writePath_eq_written (hh : h.IsOrdinary σ) :
    (w.writePath σ h host p v).heap = h.written σ w.keys host p v := by
  rw [w.heap_writePath_eq_getD hh, Heap.result?_write_eq_map hh, Heap.written]
  cases h.filled? σ w.keys host p v <;> rfl

/-- A write that raises nothing answers whether it fills a slot. -/
theorem eq_isSome_of_writePath (hh : h.IsOrdinary σ) {b : Bool}
    (hb : (w.writePath σ h host p v).result = .ok b) :
    b = (h.filled? σ w.keys host p v).isSome := by
  rw [Bool.eq_iff_iff, ← Option.isSome_map (f := fun s => h.store s v),
    ← Heap.result?_write_eq_map hh, ← result_writePath_eq_true_iff, hb]
  simp

/-- A lenient write that fails changes nothing. -/
theorem writePath_of_fail (hh : h.IsOrdinary σ) (hw : w.strict = false) {f : Failure}
    (hf : h.write σ w.keys host p v = .fail f) :
    (w.writePath σ h host p v).EndsAs ⟨.ok false, h, [], []⟩ := by
  have hfails (h' : Heap) : h.write σ w.keys host p v ≠ .done h' := fun hdone => by
    cases hf.symm.trans hdone
  constructor
  · rw [w.result_writePath_of_fail hf, hw]
    rfl
  · rw [w.heap_writePath_of_not_done hfails, hh.leftByWrite hfails]

/-- A lenient write to a slot that takes values answers whether the value is of the declared type. -/
theorem result_writePath_of_accepts? (hh : h.IsOrdinary σ) (hw : w.strict = false)
    (hs : h.place? σ w.keys host p = some s) {d : Option Annotation}
    (hd : h.accepts? σ s = some d) :
    (w.writePath σ h host p v).result = .ok (h.isAssignable σ d v) := by
  cases hv : h.isAssignable σ d v with
  | true =>
    rw [result_writePath_eq_true_iff, Heap.result?_write hh, hs, Option.bind_some,
      Heap.storeChecked?_eq_some.2 ⟨d, hd, hv, rfl⟩]
    rfl
  | false =>
    obtain ⟨⟨c, i⟩, hparent, hc⟩ := Option.bind_eq_some_iff.1 hs
    rw [Outcome.result?_eq_some] at hparent
    dsimp only at hc
    obtain ⟨f, hf⟩ := Heap.exists_fail_of_mistyped hh hc hd hv
    have hnull : c.isNull = false := by
      rw [Heap.eq_ref_of_slotAt? hc]
      rfl
    refine (w.writePath_of_fail hh hw (f := f) ?_).result
    rw [Heap.write_of_parentOf hparent hnull, hh.leftByParent, hf]

/-- A write that raises nothing has the result that it has alone, after another that is apart. -/
theorem eq_of_writePath_writePath (hh : h.IsOrdinary σ) (hkeys : SimpleKeys w.keys)
    (hpq : h.Spares σ w.keys host p q)
    (hp : h.TypedAlike σ w.keys host p v (w.writePath σ h host q x).heap) {b b' : Bool}
    (hb : (w.writePath σ h host p v).result = .ok b)
    (hb' : (w.writePath σ (w.writePath σ h host q x).heap host p v).result = .ok b') : b = b' := by
  rw [w.heap_writePath_eq_written hh] at hp hb'
  rw [w.eq_isSome_of_writePath hh hb,
    w.eq_isSome_of_writePath (Heap.isOrdinary_written hh _ _ _ _) hb',
    Heap.filled?_written hh hkeys hpq hp]

/-! ## Batches of two values -/

/-- In a batch that returns, no write raises anything. -/
theorem exists_singleWrites_of_writeEach {es : List (Path × Value)} {count n : Nat}
    (hn : (w.writeEach σ h host count es).result = .ok n) :
    ∃ bs : List Bool, w.singleWrites σ h host es = bs.map .ok := by
  induction es generalizing h count with
  | nil => exact ⟨[], rfl⟩
  | cons e es ih =>
    rw [writeEach] at hn
    cases he : (w.writePath σ h host e.1 e.2).result with
    | error r =>
      rw [(Report.andThen_error he).result] at hn
      cases hn
    | ok b =>
      rw [(Report.andThen_ok he).result] at hn
      obtain ⟨bs, hbs⟩ := ih hn
      exact ⟨b :: bs, by rw [singleWrites, he, hbs, List.map_cons]⟩

/-- A batch of two values. -/
def writeBoth (w : Walker) (σ : Schema) (h : Heap) (host : Value) (p q : Path) (v x : Value) :
    Report Nat :=
  { w with paths := [p, q] }.writeValues σ h host [v, x]

theorem writeBoth_endsAs :
    (w.writeBoth σ h host p q v x).EndsAs (w.writeEach σ h host 0 [(p, v), (q, x)]) :=
  writeValues_endsAs { w with paths := [p, q] } rfl

/-- Where a batch returns, both of its writes do. -/
theorem exists_of_writeBoth {n : Nat} (hn : (w.writeBoth σ h host p q v x).result = .ok n) :
    ∃ b c, (w.writePath σ h host p v).result = .ok b ∧
      (w.writePath σ (w.writePath σ h host p v).heap host q x).result = .ok c ∧
      n = [b, c].count true ∧ (w.writeBoth σ h host p q v x).heap =
        (w.writePath σ (w.writePath σ h host p v).heap host q x).heap := by
  have hends : (w.writeBoth σ h host p q v x).EndsAs _ := w.writeBoth_endsAs
  obtain ⟨bs, hbs⟩ := w.exists_singleWrites_of_writeEach (hends.result.symm.trans hn)
  have hall := hends.trans (w.writeEach_eq_ok hbs)
  obtain ⟨b, bs, rfl, hb, hbs⟩ := List.map_eq_cons_iff.1 hbs.symm
  obtain ⟨c, bs, rfl, hc, hbs⟩ := List.map_eq_cons_iff.1 hbs
  obtain rfl := List.map_eq_nil_iff.1 hbs
  exact ⟨b, c, hb.symm, hc.symm, Except.ok.inj (hn.symm.trans hall.result), hall.heap⟩

/-- A batch counts the writes that are done. -/
theorem result_writeBoth {b c : Bool} {h₁ : Heap}
    (hb : (w.writePath σ h host p v).EndsAs ⟨.ok b, h₁, [], []⟩)
    (hc : (w.writePath σ h₁ host q x).result = .ok c) :
    (w.writeBoth σ h host p q v x).result = .ok ([b, c].count true) := by
  have hwrites : w.singleWrites σ h host [(p, v), (q, x)] = [b, c].map .ok := by
    rw [singleWrites, singleWrites, singleWrites, hb.result, hb.heap, hc]
    rfl
  exact (w.writeBoth_endsAs.trans (w.writeEach_eq_ok hwrites)).result

/-- A batch raises what its first write raises. -/
theorem result_writeBoth_error {e : Raised} (he : (w.writePath σ h host p v).result = .error e) :
    (w.writeBoth σ h host p q v x).result = .error e :=
  (w.writeBoth_endsAs.trans (Report.andThen_error he)).result

/-- Two writes of a batch may change places, if their paths are apart and the one makes no difference
to whether the value of the other is of the declared type.  If the batch raises nothing in either
order, it counts as many writes, each write has the same result, and the heap that is left is the
same, but for the order of what is new. -/
theorem writeValues_comm (hh : h.IsOrdinary σ) (hkeys : SimpleKeys w.keys)
    (hpq : h.Apart σ w.keys host p q)
    (hp : h.TypedAlike σ w.keys host p v (w.writePath σ h host q x).heap)
    (hq : h.TypedAlike σ w.keys host q x (w.writePath σ h host p v).heap) {m n : Nat}
    (hm : (w.writeBoth σ h host p q v x).result = .ok m)
    (hn : (w.writeBoth σ h host q p x v).result = .ok n) :
    m = n ∧
      (w.writePath σ h host p v).result =
        (w.writePath σ (w.writePath σ h host q x).heap host p v).result ∧
      (w.writePath σ (w.writePath σ h host p v).heap host q x).result =
        (w.writePath σ h host q x).result ∧
      h.AlikeButNew (w.writeBoth σ h host p q v x).heap (w.writeBoth σ h host q p x v).heap := by
  obtain ⟨b, c, hb, hc, rfl, hheap⟩ := w.exists_of_writeBoth hm
  obtain ⟨c', b', hc', hb', rfl, hheap'⟩ := w.exists_of_writeBoth hn
  obtain rfl := w.eq_of_writePath_writePath hh hkeys hpq.left hp hb hb'
  obtain rfl := w.eq_of_writePath_writePath hh hkeys hpq.right hq hc' hc
  refine ⟨?_, hb.trans hb'.symm, hc.trans hc'.symm, ?_⟩
  · rw [List.count_cons, List.count_cons, List.count_cons, List.count_cons]
    omega
  · rw [w.heap_writePath_eq_written hh] at hp hq
    rw [hheap, hheap', w.heap_writePath_eq_written hh, w.heap_writePath_eq_written hh,
      w.heap_writePath_eq_written (Heap.isOrdinary_written hh _ _ _ _),
      w.heap_writePath_eq_written (Heap.isOrdinary_written hh _ _ _ _)]
    exact Heap.written_comm hh hkeys hpq hp hq

/-- A lenient walker. -/
def lenient : Walker := ⟨[], false, none⟩

/-- The report of a lenient batch of two values. -/
def writeTwo (σ : Schema) (h : Heap) (p q : String) (v x : Value) : Report Nat :=
  lenient.writeBoth σ h (.ref 0) (Path.parse p) (Path.parse q) v x

/-- Two new entries come into a dictionary in either order. -/
theorem writeValues_comm_new :
    let h : Heap := ⟨#[.dict .plain []]⟩
    let a : Value × Value := (.scalar (.text "a"), .scalar (.int 1))
    let b : Value × Value := (.scalar (.text "b"), .scalar (.int 2))
    (writeTwo {} h "a" "b" a.2 b.2).result = .ok 2 ∧
      (writeTwo {} h "a" "b" a.2 b.2).heap = ⟨#[.dict .plain [a, b]]⟩ ∧
      (writeTwo {} h "b" "a" b.2 a.2).heap = ⟨#[.dict .plain [b, a]]⟩ ∧
      h.AlikeButNew (writeTwo {} h "a" "b" a.2 b.2).heap (writeTwo {} h "b" "a" b.2 a.2).heap := by
  intro h a b
  have hh : h.IsOrdinary {} := fun hn =>
    Heap.isOrdinary_iff.2 (by simp [h, Node.IsOrdinary]) hn
  have ha : h.place? {} none (.ref 0) (Path.parse "a") = some (.entry 0 a.1) := by cbv
  have hb : h.place? {} none (.ref 0) (Path.parse "b") = some (.entry 0 b.1) := by cbv
  have hexits : h.exits {} none (.ref 0) (Path.parse "a") 0 = [(.entry 0 a.1, 0)] := by cbv
  have hexits' : h.exits {} none (.ref 0) (Path.parse "b") 0 = [(.entry 0 b.1, 0)] := by cbv
  have hapart : h.Apart {} none (.ref 0) (Path.parse "a") (Path.parse "b") := by
    refine Heap.apart_of_place? ha hb (by simp [a, b]) (fun k => ?_) fun k => ?_
    · simp [hexits, a, b]
    · simp [hexits', a, b]
  have hm : (writeTwo {} h "a" "b" a.2 b.2).result = .ok 2 := by cbv
  have hn : (writeTwo {} h "b" "a" b.2 a.2).result = .ok 2 := by cbv
  obtain ⟨-, -, -, halike⟩ := writeValues_comm ⟨[], false, none⟩ hh (.inl rfl) hapart
    (Heap.typedAlike_of_place? ha (by simp)) (Heap.typedAlike_of_place? hb (by simp)) hm hn
  exact ⟨hm, by cbv, by cbv, halike⟩

/-! ## What disturbs -/

/-- A record whose field holds a list of one item, and the list. -/
def boxedList (x : Scalar) : Heap :=
  ⟨#[.dict .plain [(.scalar (.text "box"), .ref 1), (.scalar (.text "l"), .ref 2)],
    .object "Box" [("x", .ref 2)], .list [.scalar x]]⟩

/-- The class of records with one list of integers. -/
def boxListSchema : Schema :=
  ⟨[{ name := "Box", kind := .record,
      fields := [{ name := "x", declared := .list (.named "int") }] }]⟩

theorem boxedList_ordinary (x : Scalar) : (boxedList x).IsOrdinary boxListSchema := by
  have hplain : boxListSchema.IsPlainClass "Box" :=
    Schema.isPlainClass_of_isEmpty (by decide) (by decide)
  have hnodes : ∀ n ∈ (boxedList x).nodes.toList, n.IsOrdinary boxListSchema := by
    simp [boxedList, Node.IsOrdinary, hplain]
  intro a n hn
  exact Heap.isOrdinary_iff.2 hnodes hn

theorem place?_field (x : Scalar) :
    (boxedList x).place? boxListSchema none (.ref 0) (Path.parse "box.x") =
      some (.property 1 "x") := by cbv

theorem place?_item (x : Scalar) :
    (boxedList x).place? boxListSchema none (.ref 0) (Path.parse "l.0") = some (.item 2 0) := by
  cbv

theorem boxedList_apart (x : Scalar) :
    (boxedList x).Apart boxListSchema none (.ref 0) (Path.parse "box.x") (Path.parse "l.0") := by
  refine Heap.apart_of_place? (place?_field x) (place?_item x) (by simp) (fun k hk => ?_)
    fun k hk => ?_
  · have hbox := Heap.eq_or_eq_of_mem_exits (boxedList_ordinary x) (by cbv)
      (s := .entry 0 (.scalar (.text "box"))) (t := .property 1 "x") (c := .ref 1)
      (by cbv) (by cbv) (by cbv) hk
    simp at hbox
  · have hl := Heap.eq_or_eq_of_mem_exits (boxedList_ordinary x) (by cbv)
      (s := .entry 0 (.scalar (.text "l"))) (t := .item 2 0) (c := .ref 2) (by cbv) (by cbv) (by cbv) hk
    simp at hl

theorem result_field (x : Scalar) : (lenient.writePath boxListSchema (boxedList x) (.ref 0)
      (Path.parse "box.x") (.ref 2)).result =
    .ok ((boxedList x).isAssignable boxListSchema (some (.list (.named "int"))) (.ref 2)) := by
  have haccepts : (boxedList x).accepts? boxListSchema (.property 1 "x") =
      some (some (.list (.named "int"))) := by cbv
  exact lenient.result_writePath_of_accepts? (boxedList_ordinary x) rfl (place?_field x) haccepts

/-- The list is in the field already. -/
theorem heap_field (x : Scalar) : (lenient.writePath boxListSchema (boxedList x) (.ref 0)
    (Path.parse "box.x") (.ref 2)).heap = boxedList x := by
  rw [lenient.heap_writePath_eq_written (boxedList_ordinary x), Heap.written]
  cases hs : (boxedList x).filled? boxListSchema lenient.keys (.ref 0) (Path.parse "box.x")
    (.ref 2) with
  | none => rfl
  | some s =>
    obtain rfl : s = .property 1 "x" :=
      Option.some.inj ((Heap.filled?_eq_some.1 hs).1.symm.trans (place?_field x))
    rfl

theorem writePath_item (x y : Scalar) : (lenient.writePath boxListSchema (boxedList x) (.ref 0)
    (Path.parse "l.0") (.scalar y)).EndsAs ⟨.ok true, boxedList y, [], []⟩ := by
  constructor <;> cbv

/-- The list is of integers before its item is written, and not after. -/
theorem result_boxedList :
    (writeTwo boxListSchema (boxedList (.int 1)) "box.x" "l.0" (.ref 2)
      (.scalar (.text "s"))).result = .ok 2 ∧
    (writeTwo boxListSchema (boxedList (.int 1)) "l.0" "box.x" (.scalar (.text "s"))
      (.ref 2)).result = .ok 1 := by
  have hints : (boxedList (.int 1)).isAssignable boxListSchema (some (.list (.named "int")))
      (.ref 2) = true := by cbv
  have htexts : (boxedList (.text "s")).isAssignable boxListSchema (some (.list (.named "int")))
      (.ref 2) = false := by cbv
  have hitem := writePath_item (.int 1) (.text "s")
  have hfield := (result_field (.int 1)).trans (congrArg Except.ok hints)
  have hrefused := (result_field (.text "s")).trans (congrArg Except.ok htexts)
  exact ⟨lenient.result_writeBoth ⟨hfield, heap_field _⟩ hitem.result,
    lenient.result_writeBoth hitem hrefused⟩

theorem maskedList_apart (x : Scalar) :
    (maskedList x).Apart maskedSchema none (.ref 0) (Path.parse "rec.a") (Path.parse "box.0") := by
  refine Heap.apart_of_place? (s := .property 2 "a") (t := .item 1 0) (by cbv) (by cbv) (by simp)
    (fun k hk => ?_) fun k hk => ?_
  · have hrec := Heap.eq_or_eq_of_mem_exits (maskedList_ordinary x) (by cbv)
      (s := .entry 0 (.scalar (.text "rec"))) (t := .property 2 "a") (c := .ref 2)
      (by cbv) (by cbv) (by cbv) hk
    simp at hrec
  · have hbox := Heap.eq_or_eq_of_mem_exits (maskedList_ordinary x) (by cbv)
      (s := .entry 0 (.scalar (.text "box"))) (t := .item 1 0) (c := .ref 1) (by cbv) (by cbv) (by cbv) hk
    simp at hbox

/-- A failure that shows a list without a text lets a fault out. -/
theorem result_rec {x : Scalar} {f : Fault} (hx : scalarQuoted x = .error f) :
    (lenient.writePath maskedSchema (maskedList x) (.ref 0) (Path.parse "rec.a")
      (.scalar .null)).result = .error (.fault f) := by
  have hparent : (maskedList x).parentOf maskedSchema none (.ref 0) (Path.parse "rec.a") =
      .done (.ref 2, 0) := by cbv
  have hname : Heap.nameAt (Path.parse "rec.a") (Path.parse "rec.a").lastIndex = .done "a" := by cbv
  have hwrite : (maskedList x).writeProperty maskedSchema (.ref 2) (some "a") (.scalar .null) =
      .error (.noProperties "Secret" true, maskedList x) := by cbv
  have hput : (maskedList x).put maskedSchema none (.ref 2) (Path.parse "rec.a") (.scalar .null) =
      (maskedList x).terminalAt maskedSchema (.ref 2) (Path.parse "rec.a")
        (Path.parse "rec.a").lastIndex := by
    rw [Heap.put, show (maskedList x).classify (.ref 2) = .object from rfl, Heap.putInto,
      Heap.putProperty, hname, Outcome.done_bind, hwrite]
    rfl
  have hkeys : lenient.keys = none := rfl
  rw [result_writePath_eq_fault, hkeys, Heap.relayed?, hparent, Heap.write_of_parentOf hparent rfl,
    Heap.IsOrdinary.leftByParent (maskedList_ordinary x), hput, Heap.terminalAt, format_rec,
    text_rec hx]
  exact ⟨rfl, rfl⟩

/-- The record has a text after the item of the list is written, and none before. -/
theorem result_maskedList :
    (writeTwo maskedSchema (maskedList (.int leastUnprintable)) "rec.a" "box.0" (.scalar .null)
      (.scalar (.int 0))).result = .error (.fault .unprintableInteger) ∧
    (writeTwo maskedSchema (maskedList (.int leastUnprintable)) "box.0" "rec.a"
      (.scalar (.int 0)) (.scalar .null)).result = .ok 1 := by
  have hquoted : scalarQuoted (.int leastUnprintable) = .error .unprintableInteger := by
    have htext (n : Int) : (Scalar.int n).quoted? = integerText? n := rfl
    rw [scalarQuoted, htext, integerText?_leastUnprintable]
  have hitem (n : Int) : (lenient.writePath maskedSchema (maskedList (.int n)) (.ref 0)
      (Path.parse "box.0") (.scalar (.int 0))).EndsAs ⟨.ok true, maskedList (.int 0), [], []⟩ := by
    constructor <;> cbv
  have hfail : (maskedList (.int 0)).write maskedSchema none (.ref 0) (Path.parse "rec.a")
      (.scalar .null) =
        .fail ⟨.terminalValue "Secret" "Secret(_x=[0])", Path.parse "rec.a", 1, none⟩ := by cbv
  have hrefused := (lenient.writePath_of_fail (maskedList_ordinary _) rfl hfail).result
  exact ⟨lenient.result_writeBoth_error (result_rec hquoted),
    lenient.result_writeBoth (hitem _) hrefused⟩

/-- Writes that address different slots disturb each other where a declared type looks into a list,
where the text of a failure does, and where the one path leads on from the slot of the other, though
nothing is in it. -/
theorem writeValues_disturbed :
    (let h := boxedList (.int 1)
    h.IsOrdinary boxListSchema ∧
      h.Apart boxListSchema none (.ref 0) (Path.parse "box.x") (Path.parse "l.0") ∧
      (writeTwo boxListSchema h "box.x" "l.0" (.ref 2) (.scalar (.text "s"))).result = .ok 2 ∧
      (writeTwo boxListSchema h "l.0" "box.x" (.scalar (.text "s")) (.ref 2)).result = .ok 1) ∧
    (let h := maskedList (.int leastUnprintable)
    h.IsOrdinary maskedSchema ∧
      h.Apart maskedSchema none (.ref 0) (Path.parse "rec.a") (Path.parse "box.0") ∧
      (writeTwo maskedSchema h "rec.a" "box.0" (.scalar .null) (.scalar (.int 0))).result =
        .error (.fault .unprintableInteger) ∧
      (writeTwo maskedSchema h "box.0" "rec.a" (.scalar (.int 0)) (.scalar .null)).result =
        .ok 1) ∧
    (let h : Heap := ⟨#[.dict .plain [], .dict .plain []]⟩
    h.IsOrdinary {} ∧ h.place? {} none (.ref 0) (Path.parse "a.c") = none ∧
      (writeTwo {} h "a.c" "a" (.scalar .null) (.ref 1)).result = .ok 1 ∧
      (writeTwo {} h "a" "a.c" (.ref 1) (.scalar .null)).result = .ok 2) := by
  refine ⟨⟨boxedList_ordinary _, boxedList_apart _, result_boxedList⟩,
    ⟨maskedList_ordinary _, maskedList_apart _, result_maskedList⟩, ?_⟩
  intro h
  have hh : h.IsOrdinary {} := fun hn =>
    Heap.isOrdinary_iff.2 (by simp [h, Node.IsOrdinary]) hn
  have hfail : h.write {} none (.ref 0) (Path.parse "a.c") (.scalar .null) =
      .fail ⟨.noSuchKey, Path.ofSegments [some "a"], 0, none⟩ := by cbv
  have hrefused := lenient.writePath_of_fail hh rfl hfail
  have hlink : (lenient.writePath {} h (.ref 0) (Path.parse "a") (.ref 1)).result = .ok true := by
    cbv
  exact ⟨hh, by cbv, lenient.result_writeBoth hrefused hlink, by cbv⟩

end Walker

end Dotpath

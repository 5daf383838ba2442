import Dotpath.Proofs.Walk.Place
import Dotpath.Proofs.Walk.Policy

/-!
# Writing back and writing again

Writing what is read leaves the heap as it is, if what can be read of objects is stored in them; and
the second of two writes along one path is the one that counts (`writePath_overwrites`).  For the
second law the path must not lead through the slot that it addresses: otherwise the first write leads
the second one elsewhere.

Both are laws of checked stores, since a write along a path is one in the slot of the path, and the
first write changes neither this slot nor what it takes.
-/

namespace Dotpath

namespace Heap

variable {σ : Schema} {h h' : Heap} {keys : Option Deserializer} {p : Path} {host v x : Value}
  {s : Slot}

/-- A walk goes on from each container of its trail. -/
theorem walk_eq_of_mem_trail (hh : h.IsOrdinary σ) {u c : Value} {i j : Int}
    (hc : (c, j) ∈ h.trail σ keys u p i) : h.walk σ keys u p i = h.walk σ keys c p j := by
  refine mem_trail_induction hh (motive := fun u i => h.walk σ keys u p i = h.walk σ keys c p j)
    (fun _ _ => rfl) ?_ hc
  intro u w i hi hu hstep _ ih
  rw [walk_of_lt hi hu, hh.leftByStep, hstep]
  exact ih

/-- What a walk finds is held in the slot of its path, if the path addresses one. -/
theorem load_of_walk (hh : h.IsOrdinary σ) (hkeys : SegmentOnly keys)
    (hv : h.walk σ keys host p 0 = .done v) (hs : h.place? σ keys host p = some s) :
    h.load σ s = some v := by
  obtain ⟨c, hc, hcs⟩ := mem_exits_iff.1 (exits_of_place? hh hkeys hs)
  have hlt : p.lastIndex < p.size := lt_size_of_mem_trail hh hc
  have hend : (p.size : Int) ≤ p.lastIndex + 1 := by
    rw [Path.lastIndex]
    omega
  rw [walk_eq_of_mem_trail hh hc, walk_of_lt hlt (not_null_of_mem_trail hh hc)] at hv
  obtain ⟨w, hstep, hw⟩ := Outcome.bind_eq_done.1 hv
  rw [walk_of_le hend] at hw
  cases hw
  have hload := Outcome.result?_eq_some.2 hstep
  rw [eq_ref_of_slotAt? hcs] at hload hcs
  rwa [result?_step_ref hh, hcs, Option.bind_some] at hload

/-- Writing what is read. -/
theorem write_eq_self (hh : h.IsOrdinary σ) (hown : h.StoresOwn σ) (hkeys : SegmentOnly keys)
    (hv : h.walk σ keys host p 0 = .done v) (hw : h.write σ keys host p v = .done h') :
    h' = h := by
  rw [← Outcome.result?_eq_some, result?_write hh] at hw
  obtain ⟨s, hs, hw⟩ := Option.bind_eq_some_iff.1 hw
  obtain ⟨d, -, -, rfl⟩ := storeChecked?_eq_some.1 hw
  exact store_load_self hown (load_of_walk hh hkeys hv hs)

/-- Writing twice. -/
theorem result?_write_write (hh : h.IsOrdinary σ) (hkeys : SimpleKeys keys)
    (hfree : h.Unrevisited σ keys host p) (hw : h.write σ keys host p v = .done h') (x : Value) :
    (h'.write σ keys host p x).result? = (h.write σ keys host p x).result? := by
  rw [← Outcome.result?_eq_some, result?_write hh] at hw
  obtain ⟨s, hs, hw⟩ := Option.bind_eq_some_iff.1 hw
  obtain ⟨d, hd, -, rfl⟩ := storeChecked?_eq_some.1 hw
  have hsimple := isSimple_of_place? hkeys hs
  have hplace : (h.store s v).place? σ keys host p = some s := by
    rw [place?_store hh hkeys hsimple v fun k hk => hfree (exits_of_place? hh hkeys.segmentOnly hs) hk,
      hs]
  rw [result?_write (hh.store s v), result?_write hh, hplace, hs, Option.bind_some,
    Option.bind_some, storeChecked?_store_self hh hsimple hd]

end Heap

namespace Walker

variable (w : Walker) {σ : Schema} {h : Heap} {host : Value} {p : Path}

theorem result_writePath_eq_true_iff (x : Value) :
    (w.writePath σ h host p x).result = .ok true ↔
      ((h.write σ w.keys host p x).result?).isSome = true := by
  rw [result_writePath_eq_true, Option.isSome_iff_exists]
  simp only [Outcome.result?_eq_some]

/-- A write that does not succeed leaves a heap of ordinary containers as it is. -/
theorem heap_writePath_eq_getD (hh : h.IsOrdinary σ) (x : Value) :
    (w.writePath σ h host p x).heap = ((h.write σ w.keys host p x).result?).getD h := by
  cases hw : (h.write σ w.keys host p x).result? with
  | some h' => rw [w.heap_writePath_of_done (Outcome.result?_eq_some.1 hw), Option.getD_some]
  | none =>
    have hfails (h' : Heap) : h.write σ w.keys host p x ≠ .done h' := fun hdone => by
      rw [hdone] at hw
      cases hw
    rw [w.heap_writePath_of_not_done hfails, hh.leftByWrite hfails, Option.getD_none]

/-- Writing at a path what is read there leaves the heap as it is, whether the write is done or not.
Where a value is written at a path, a second one is written there as it would be without the first,
with the same heap for the result; and where it would not be written, the first stays. -/
theorem writePath_overwrites (hh : h.IsOrdinary σ) (hkeys : SimpleKeys w.keys) :
    (h.StoresOwn σ → ∀ {v}, h.walk σ w.keys host p 0 = .done v →
      (w.writePath σ h host p v).heap = h) ∧
    (h.Unrevisited σ w.keys host p → ∀ {v}, (w.writePath σ h host p v).result = .ok true →
      ∀ x, let first := (w.writePath σ h host p v).heap
        ((w.writePath σ h host p x).result = .ok true →
          (w.writePath σ first host p x).result = .ok true ∧
            (w.writePath σ first host p x).heap = (w.writePath σ h host p x).heap) ∧
        ((w.writePath σ h host p x).result ≠ .ok true →
          (w.writePath σ first host p x).result ≠ .ok true ∧
            (w.writePath σ first host p x).heap = first)) := by
  constructor
  · intro hown v hv
    rw [w.heap_writePath_eq_getD hh]
    cases hw : (h.write σ w.keys host p v).result? with
    | none => rfl
    | some h' =>
      exact Heap.write_eq_self hh hown hkeys.segmentOnly hv (Outcome.result?_eq_some.1 hw)
  · intro hfree v hv x first
    have hfirst : h.write σ w.keys host p v = .done first := w.write_eq_done_of_writePath hv
    have hord : first.IsOrdinary σ := by
      obtain ⟨_, s, _, _, _, _, _, hstore⟩ := Heap.write_eq_done hh hkeys.segmentOnly hfirst
      rw [hstore]
      exact hh.store s v
    have hsecond := Heap.result?_write_write hh hkeys hfree hfirst x
    have hiff : (w.writePath σ first host p x).result = .ok true ↔
        (w.writePath σ h host p x).result = .ok true := by
      rw [result_writePath_eq_true_iff, result_writePath_eq_true_iff, hsecond]
    refine ⟨fun hx => ⟨hiff.2 hx, ?_⟩, fun hx => ⟨mt hiff.1 hx, ?_⟩⟩
    · rw [result_writePath_eq_true_iff] at hx
      obtain ⟨h', hh'⟩ := Option.isSome_iff_exists.1 hx
      rw [w.heap_writePath_eq_getD hord, w.heap_writePath_eq_getD hh, hsecond, hh']
      rfl
    · rw [Ne, result_writePath_eq_true_iff, Option.not_isSome_iff_eq_none] at hx
      rw [w.heap_writePath_eq_getD hord, hsecond, hx]
      rfl

/-! ## A record in a dictionary -/

/-- A dictionary with a record of one field. -/
def boxed (x : Scalar) : Heap :=
  ⟨#[.dict .plain [(.scalar (.text "box"), .ref 1)], .object "Box" [("x", .scalar x)]]⟩

/-- The class of records with one integer. -/
def boxSchema : Schema :=
  ⟨[{ name := "Box", kind := .record, fields := [{ name := "x", declared := .named "int" }] }]⟩

theorem boxed_ordinary (x : Scalar) : (boxed x).IsOrdinary boxSchema := by
  have hplain : boxSchema.IsPlainClass "Box" :=
    Schema.isPlainClass_of_isEmpty (by decide) (by decide)
  have hnodes : ∀ n ∈ (boxed x).nodes.toList, n.IsOrdinary boxSchema := by
    simp [boxed, Node.IsOrdinary, hplain]
  intro a n hn
  exact Heap.isOrdinary_iff.2 hnodes hn

theorem boxed_storesOwn (x : Scalar) : (boxed x).StoresOwn boxSchema := by
  have hnone : ∀ c ∈ boxSchema.lineage "Box", c.classAttrs.isEmpty = true := by decide
  have hbox (attrs : List (String × Value)) : (Node.object "Box" attrs).StoresOwn boxSchema :=
    Node.storesOwn_of_no_values attrs fun c hc => List.isEmpty_iff.1 (hnone c hc)
  intro a n hn
  have hmem : n ∈ (boxed x).nodes.toList := List.mem_of_getElem? (Array.getElem?_toList.trans hn)
  rcases List.mem_cons.1 hmem with rfl | hmem
  · trivial
  · rw [List.mem_singleton.1 hmem]
    exact hbox _

theorem boxed_unrevisited (x : Scalar) :
    (boxed x).Unrevisited boxSchema none (.ref 0) (Path.parse "box.x") := by
  have hlast : (Path.parse "box.x").lastIndex = 1 := by cbv
  have hexits {s : Slot} {k : Int}
      (hk : (s, k) ∈ (boxed x).exits boxSchema none (.ref 0) (Path.parse "box.x") 0) :=
    Heap.eq_or_eq_of_mem_exits (boxed_ordinary x) (by cbv) (s := .entry 0 (.scalar (.text "box")))
      (t := .property 1 "x") (c := .ref 1) (by cbv) (by cbv) (by cbv) hk
  intro s i hs hi
  rw [hlast] at hs ⊢
  obtain rfl : s = .property 1 "x" := by simpa using hexits hs
  obtain rfl : i = 1 := by simpa using hexits hi
  exact Int.le_refl 1

theorem walk_boxed (m : Int) :
    (boxed (.int m)).walk boxSchema none (.ref 0) (Path.parse "box.x") 0 =
      .done (.scalar (.int m)) := by
  have hsize : (Path.parse "box.x").size = 2 := by cbv
  have hbox : (boxed (.int m)).step boxSchema none (.ref 0) (Path.parse "box.x") 0 =
      .done (.ref 1) := by cbv
  have hslot : (boxed (.int m)).slotAt? none (.ref 1) (Path.parse "box.x") 1 =
      some (.property 1 "x") := by cbv
  have hfield : (boxed (.int m)).step boxSchema none (.ref 1) (Path.parse "box.x") 1 =
      .done (.scalar (.int m)) := by
    rw [← Outcome.result?_eq_some, Heap.result?_step_ref (boxed_ordinary _), hslot]
    cbv
  rw [Heap.walk_of_lt (by rw [hsize]; decide) rfl, hbox, Outcome.done_bind,
    Heap.IsOrdinary.leftByStep (boxed_ordinary (.int m)),
    Heap.walk_of_lt (by rw [hsize]; decide) rfl, Int.zero_add, hfield, Outcome.done_bind]
  exact Heap.walk_of_le (by rw [hsize]; decide)

/-- The report of a write to the field. -/
def writeField (h : Heap) (x : Scalar) : Report Bool :=
  writePath ⟨[], true, none⟩ boxSchema h (.ref 0) (Path.parse "box.x") (.scalar x)

/-- The field is written where the value is an integer. -/
theorem result_writeField_iff (m : Int) (x : Scalar) :
    (writeField (boxed (.int m)) x).result = .ok true ↔
      (boxed (.int m)).isAssignable boxSchema (some (.named "int")) (.scalar x) = true := by
  have hplace : (boxed (.int m)).place? boxSchema none (.ref 0) (Path.parse "box.x") =
      some (.property 1 "x") := by cbv
  have haccepts : (boxed (.int m)).accepts? boxSchema (.property 1 "x") =
      some (some (.named "int")) := by cbv
  rw [writeField, result_writePath_eq_true_iff, Heap.result?_write (boxed_ordinary _), hplace,
    Option.bind_some, Heap.storeChecked?, haccepts, Option.bind_some]
  split <;> simp [*]

/-- The field takes another integer after the first one, but no text. -/
theorem writePath_overwrites_boxed :
    let first := (writeField (boxed (.int 1)) (.int 2)).heap
    (writeField (boxed (.int 1)) (.int 1)).heap = boxed (.int 1) ∧
      (writeField first (.int 3)).heap = (writeField (boxed (.int 1)) (.int 3)).heap ∧
      (writeField first (.text "s")).heap = first := by
  intro first
  obtain ⟨hback, hagain⟩ := @writePath_overwrites ⟨[], true, none⟩ boxSchema (boxed (.int 1))
    (.ref 0) (Path.parse "box.x") (boxed_ordinary _) (.inl rfl)
  have hsecond := hagain (boxed_unrevisited _) ((result_writeField_iff 1 (.int 2)).2 rfl)
  have hint := (hsecond (.scalar (.int 3))).1 ((result_writeField_iff 1 (.int 3)).2 rfl)
  have htext := (hsecond (.scalar (.text "s"))).2
    (mt (result_writeField_iff 1 (.text "s")).1 (by decide))
  exact ⟨hback (boxed_storesOwn _) (walk_boxed 1), hint.2, htext.2⟩

end Walker

end Dotpath

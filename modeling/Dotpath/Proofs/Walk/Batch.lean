import Dotpath.Proofs.Walk.PathMap
import Dotpath.Proofs.Walk.Region

/-!
# Batches of reads and writes

A batch does what its single reads or writes do, one after the other, and stops at the first that
raises something.  What was done before stays done: the values read so far are in the list or the map
of the caller, and the writes so far are in the heap.

A read may bring a default into a dictionary below a wrapper, so the single reads are taken one after
the other too, each on the heap that those before it left.  A list that takes the values of a batch
changes while the batch reads, so the reads of the batch agree with the single ones only if the list
is not reached from the host, now or when defaults have been added (`Heap.ReachesLater`).

Each loop has a lemma that runs it over the first of its paths, and `batches_agree` puts them
together.
-/

namespace Dotpath

namespace Heap

variable {σ : Schema} {h : Heap} {keys : Option Deserializer} {v : Value}

/-- Whether an address is reached from a value now, or may be when defaults have been added: from a
key, if the value reaches a dictionary with a default. -/
def ReachesLater (σ : Schema) (h : Heap) (keys : Option Deserializer) (v : Value) (a : Address) :
    Prop :=
  h.Reaches σ v a ∨ ∃ d es k, h.Reaches σ v d ∧ h.get? d = some (.dict .defaulting es) ∧
    IsKeyOf keys k ∧ h.Reaches σ k a

/-- What is reached now or later mentions nothing else. -/
theorem sameWithin_reachesLater :
    SameWithin σ (fun a => h.ReachesLater σ keys v a ∨ h.nodes.size ≤ a) h h where
  size := rfl
  nodes _ := rfl
  closed := by
    intro a n ha hn b hb
    have hb : b ∈ h.mentionsAt σ a := by rwa [mentionsAt, hn]
    obtain (ha | ⟨d, es, k, hd, hdict, hk, ha⟩) | hsize := ha
    · exact .inl (.inl (ha.there hb))
    · exact .inl (.inr ⟨d, es, k, hd, hdict, hk, ha.there hb⟩)
    · exact absurd (lt_size_of_get? hn) (Nat.not_lt.2 hsize)

theorem takes_reachesLater :
    h.Takes (fun a => h.ReachesLater σ keys v a ∨ h.nodes.size ≤ a) (IsKeyOf keys) where
  unused _ ha := .inr ha
  keys := by
    intro d es k hd hdict hk a ha
    obtain (hd | ⟨d', es', k', hd', hdict', hk', -⟩) | hsize := hd
    · exact .inl (.inr ⟨d, es, k, hd, hdict, hk, .here ha⟩)
    · exact .inl (.inr ⟨d', es', k, hd', hdict', hk, .here ha⟩)
    · exact absurd (lt_size_of_get? hdict) (Nat.not_lt.2 hsize)

/-- Storing at a position of a list. -/
theorem setOutput_list {o : Address} {items : List Value}
    (ho : h.get? o = some (.list items)) {i : Nat} (hi : i < items.length) (v : Value) :
    h.setOutput (.ref o) i v = .ok (h.set o (.list (items.set i v))) := by
  have hpairs : h.pairs? (.ref o) = none := by
    rw [pairs?, ho]
    rfl
  rw [setOutput, hpairs, if_neg (by decide), setItem, ho]
  exact if_pos hi

end Heap

namespace Report

variable {α β : Type} {r : Report α} {f : α → Heap → Report β}

/-- Whether two reports end alike: with the same result, and the same heap. -/
structure EndsAs (r s : Report α) : Prop where
  result : r.result = s.result
  heap : r.heap = s.heap

theorem EndsAs.trans {r s t : Report α} (hrs : r.EndsAs s) (hst : s.EndsAs t) : r.EndsAs t :=
  ⟨hrs.result.trans hst.result, hrs.heap.trans hst.heap⟩

theorem andThen_ok {a : α} (hr : r.result = .ok a) : (r.andThen f).EndsAs (f a r.heap) := by
  rw [andThen, hr]
  exact ⟨rfl, rfl⟩

theorem andThen_error {e : Raised} (hr : r.result = .error e) :
    (r.andThen f).EndsAs ⟨.error e, r.heap, [], []⟩ := by
  rw [andThen, hr]
  exact ⟨rfl, rfl⟩

/-- A report whose result is passed on as something else. -/
theorem andThen_pure (g : α → β) :
    (r.andThen fun a h => .pure h (g a)).EndsAs ⟨r.result.map g, r.heap, [], []⟩ := by
  cases hr : r.result with
  | ok a => exact andThen_ok hr
  | error e => exact andThen_error hr

theorem EndsAs.andThen_ok {a : α} {h : Heap} (hr : r.EndsAs ⟨.ok a, h, [], []⟩) :
    (r.andThen f).EndsAs (f a h) := by
  have hgo := Report.andThen_ok (f := f) hr.result
  rwa [hr.heap] at hgo

theorem EndsAs.andThen_error {e : Raised} {h : Heap} (hr : r.EndsAs ⟨.error e, h, [], []⟩) :
    (r.andThen f).EndsAs ⟨.error e, h, [], []⟩ := by
  have hstop := Report.andThen_error (f := f) hr.result
  rwa [hr.heap] at hstop

end Report

namespace Walker

variable (w : Walker) {σ : Schema} {h : Heap} {host : Value} {before rest : List Path}
  {vs : List Value}

/-- The heap that reads leave that are done one after the other. -/
def heapAfterReads (w : Walker) (σ : Schema) (h : Heap) (host : Value) (ps : List Path) : Heap :=
  ps.foldl (fun h p => (w.readPath σ h host p).heap) h

/-- The results of reads that are done one after the other, each on the heap that those before it
left. -/
def singleReads (w : Walker) (σ : Schema) (h : Heap) (host : Value) :
    List Path → List (Except Raised Value)
  | [] => []
  | p :: ps =>
    let r := w.readPath σ h host p
    r.result :: w.singleReads σ r.heap host ps

theorem length_singleReads (σ : Schema) (h : Heap) (host : Value) (ps : List Path) :
    (w.singleReads σ h host ps).length = ps.length := by
  induction ps generalizing h with
  | nil => rfl
  | cons p ps ih => exact congrArg Nat.succ (ih _)

theorem length_eq_of_singleReads {ps : List Path} (hreads : w.singleReads σ h host ps = vs.map .ok) :
    vs.length = ps.length := by
  have hlength := w.length_singleReads σ h host ps
  rw [hreads, List.length_map] at hlength
  exact hlength

/-! ## Reading into a new list -/

/-- After the first values have been read, the batch goes on with the other paths. -/
theorem readEach_append (hreads : w.singleReads σ h host before = vs.map .ok) :
    let last := w.readEach σ (w.heapAfterReads σ h host before) host rest
    (w.readEach σ h host (before ++ rest)).EndsAs ⟨last.result.map (vs ++ ·), last.heap, [], []⟩ := by
  induction before generalizing h vs with
  | nil =>
    obtain rfl := List.map_eq_nil_iff.1 hreads.symm
    refine ⟨?_, rfl⟩
    rw [List.nil_append, heapAfterReads, List.foldl_nil]
    cases (w.readEach σ h host rest).result <;> rfl
  | cons p before ih =>
    obtain ⟨v, vs, rfl, hv, hvs⟩ := List.map_eq_cons_iff.1 hreads.symm
    obtain ⟨hresult, hheap⟩ : (w.readEach σ (w.readPath σ h host p).heap host
      (before ++ rest)).EndsAs _ := ih hvs.symm
    have hgo := (Report.andThen_ok (f := fun v h => (w.readEach σ h host (before ++ rest)).andThen
      fun vs h => .pure h (v :: vs)) hv.symm).trans (Report.andThen_pure (v :: ·))
    refine hgo.trans ⟨?_, hheap⟩
    dsimp only
    rw [hresult]
    dsimp only [heapAfterReads, List.foldl_cons]
    generalize (w.readEach σ _ host rest).result = last
    cases last <;> rfl

theorem readEach_eq_ok (hreads : w.singleReads σ h host before = vs.map .ok) :
    (w.readEach σ h host before).EndsAs ⟨.ok vs, w.heapAfterReads σ h host before, [], []⟩ := by
  have hall : (w.readEach σ h host (before ++ [])).EndsAs _ := w.readEach_append hreads
  rw [List.append_nil] at hall
  refine hall.trans ⟨?_, rfl⟩
  dsimp only [readEach, Report.pure, Except.map]
  rw [List.append_nil]

theorem readEach_eq_error (hreads : w.singleReads σ h host before = vs.map .ok) {p : Path}
    {e : Raised}
    (hp : (w.readPath σ (w.heapAfterReads σ h host before) host p).result = .error e) :
    (w.readEach σ h host (before ++ p :: rest)).EndsAs
      ⟨.error e, w.heapAfterReads σ h host (before ++ [p]), [], []⟩ := by
  have hall : (w.readEach σ h host (before ++ p :: rest)).EndsAs _ := w.readEach_append hreads
  have hstop : (w.readEach σ (w.heapAfterReads σ h host before) host (p :: rest)).EndsAs _ :=
    Report.andThen_error hp
  refine hall.trans ⟨?_, ?_⟩
  · rw [hstop.result]
    rfl
  · rw [hstop.heap, heapAfterReads, heapAfterReads, List.foldl_append]
    rfl

/-! ## Reading into a list of the caller -/

section Output

variable {S : Address → Prop} {o : Address}

theorem region_heapAfterReads (hS : Heap.SameWithin σ S h h)
    (hnew : h.Takes S (Heap.IsKeyOf w.keys)) (hhost : host.LiesIn S) (ps : List Path) :
    let h' := w.heapAfterReads σ h host ps
    Heap.SameWithin σ S h' h' ∧ h'.Takes S (Heap.IsKeyOf w.keys) := by
  induction ps generalizing h with
  | nil => exact ⟨hS, hnew⟩
  | cons p ps ih =>
    obtain ⟨hS', hnew'⟩ := w.readPath_region hS hnew hhost p
    exact ih hS' hnew'

/-- After the first values have been stored, the batch goes on at the next position. -/
theorem storeEach_append (hS : Heap.SameWithin σ S h h) (hnew : h.Takes S (Heap.IsKeyOf w.keys))
    (hhost : host.LiesIn S) (hfar : ¬ S o)
    (hreads : w.singleReads σ h host before = vs.map .ok) {front back : List Value}
    (hroom : before.length ≤ back.length) :
    (w.storeEach σ (h.set o (.list (front ++ back))) host (.ref o) front.length
      (before ++ rest)).EndsAs
    (w.storeEach σ ((w.heapAfterReads σ h host before).set o
        (.list (front ++ vs ++ back.drop vs.length))) host (.ref o) (front ++ vs).length rest) := by
  induction before generalizing h vs front back with
  | nil =>
    obtain rfl := List.map_eq_nil_iff.1 hreads.symm
    rw [List.append_nil, List.length_nil, List.drop_zero]
    exact ⟨rfl, rfl⟩
  | cons p before ih =>
    obtain ⟨v, vs, rfl, hv, hvs⟩ := List.map_eq_cons_iff.1 hreads.symm
    cases back with
    | nil => cases hroom
    | cons x back =>
      obtain ⟨hresult, hheap⟩ :=
        w.readPath_set hS hnew hhost hfar (.list (front ++ x :: back)) p
      obtain ⟨hS', hnew'⟩ := w.readPath_region hS hnew hhost p
      have hstore : ((w.readPath σ h host p).heap.set o (.list (front ++ x :: back))).setOutput
          (.ref o) front.length v =
            .ok ((w.readPath σ h host p).heap.set o (.list (front ++ [v] ++ back))) := by
        have hused : o < (w.readPath σ h host p).heap.nodes.size :=
          Nat.not_le.1 fun hle => hfar (hnew'.unused o hle)
        have hget := Heap.get?_set_self (.list (front ++ x :: back)) (Array.getElem?_eq_getElem hused)
        rw [Heap.setOutput_list hget (by simp), Heap.set_set]
        simp
      have hrest : (w.storeEach σ ((w.readPath σ h host p).heap.set o
          (.list (front ++ [v] ++ back))) host (.ref o) (front ++ [v]).length
          (before ++ rest)).EndsAs _ :=
        ih hS' hnew' hvs.symm (Nat.le_of_succ_le_succ hroom)
      refine (Report.andThen_ok (hresult.trans hv.symm)).trans ?_
      rw [hheap, hstore]
      simpa [heapAfterReads] using hrest

variable {items : List Value}

theorem storeEach_eq_ok (hS : Heap.SameWithin σ S h h) (hnew : h.Takes S (Heap.IsKeyOf w.keys))
    (hhost : host.LiesIn S) (hfar : ¬ S o) (ho : h.get? o = some (.list items))
    (hreads : w.singleReads σ h host before = vs.map .ok) (hroom : before.length ≤ items.length) :
    (w.storeEach σ h host (.ref o) 0 before).EndsAs ⟨.ok (),
      (w.heapAfterReads σ h host before).set o (.list (vs ++ items.drop vs.length)), [], []⟩ := by
  have hall : (w.storeEach σ (h.set o (.list ([] ++ items))) host (.ref o) 0
      (before ++ [])).EndsAs _ := w.storeEach_append hS hnew hhost hfar hreads hroom
  rw [List.nil_append, List.append_nil, Heap.set_self ho] at hall
  exact hall

theorem storeEach_eq_error (hS : Heap.SameWithin σ S h h) (hnew : h.Takes S (Heap.IsKeyOf w.keys))
    (hhost : host.LiesIn S) (hfar : ¬ S o) (ho : h.get? o = some (.list items))
    (hreads : w.singleReads σ h host before = vs.map .ok) (hroom : before.length ≤ items.length)
    {p : Path} {e : Raised}
    (hp : (w.readPath σ (w.heapAfterReads σ h host before) host p).result = .error e) :
    (w.storeEach σ h host (.ref o) 0 (before ++ p :: rest)).EndsAs ⟨.error e,
      (w.heapAfterReads σ h host (before ++ [p])).set o (.list (vs ++ items.drop vs.length)),
      [], []⟩ := by
  have hall : (w.storeEach σ (h.set o (.list ([] ++ items))) host (.ref o) 0
      (before ++ p :: rest)).EndsAs _ := w.storeEach_append hS hnew hhost hfar hreads hroom
  rw [List.nil_append, Heap.set_self ho] at hall
  obtain ⟨hS', hnew'⟩ := w.region_heapAfterReads hS hnew hhost before
  obtain ⟨hresult, hheap⟩ :=
    w.readPath_set hS' hnew' hhost hfar (.list ([] ++ vs ++ items.drop vs.length)) p
  refine hall.trans ((Report.andThen_error (hresult.trans hp)).trans ⟨rfl, ?_⟩)
  rw [hheap, heapAfterReads, heapAfterReads, List.foldl_append]
  rfl

end Output

/-! ## Reading into a map of the caller -/

section Map

variable {entries : List (Path × Value)}

/-- After the first values have been stored, the batch goes on with the map that holds them. -/
theorem storeByPath_append (hreads : w.singleReads σ h host before = vs.map .ok) :
    let last := w.storeByPath σ (w.heapAfterReads σ h host before) host
      (putPaths entries (before.zip vs)) rest
    (w.storeByPath σ h host entries (before ++ rest)).1 = last.1 ∧
      (w.storeByPath σ h host entries (before ++ rest)).2.EndsAs last.2 := by
  induction before generalizing h vs entries with
  | nil =>
    obtain rfl := List.map_eq_nil_iff.1 hreads.symm
    exact ⟨rfl, rfl, rfl⟩
  | cons p before ih =>
    obtain ⟨v, vs, rfl, hv, hvs⟩ := List.map_eq_cons_iff.1 hreads.symm
    have hread : (w.readPath σ h host p).result = .ok v := hv.symm
    obtain ⟨hmap, hends⟩ : _ ∧ (w.storeByPath σ (w.readPath σ h host p).heap host
        (putPath entries p v) (before ++ rest)).2.EndsAs _ := ih hvs.symm
    rw [List.cons_append, storeByPath, hread]
    have hgo := Report.andThen_ok (f := fun _ _ => (w.storeByPath σ (w.readPath σ h host p).heap host
      (putPath entries p v) (before ++ rest)).2) hread
    exact ⟨hmap, hgo.trans hends⟩

theorem storeByPath_eq_ok (hreads : w.singleReads σ h host before = vs.map .ok) :
    (w.storeByPath σ h host entries before).1 = putPaths entries (before.zip vs) ∧
      (w.storeByPath σ h host entries before).2.EndsAs
        ⟨.ok (), w.heapAfterReads σ h host before, [], []⟩ := by
  have hall : (w.storeByPath σ h host entries (before ++ [])).1 = _ ∧ _ :=
    w.storeByPath_append hreads
  rwa [List.append_nil] at hall

theorem storeByPath_eq_error (hreads : w.singleReads σ h host before = vs.map .ok) {p : Path}
    {e : Raised}
    (hp : (w.readPath σ (w.heapAfterReads σ h host before) host p).result = .error e) :
    (w.storeByPath σ h host entries (before ++ p :: rest)).1 = putPaths entries (before.zip vs) ∧
      (w.storeByPath σ h host entries (before ++ p :: rest)).2.EndsAs
        ⟨.error e, w.heapAfterReads σ h host (before ++ [p]), [], []⟩ := by
  obtain ⟨hmap, hends⟩ : (w.storeByPath σ h host entries (before ++ p :: rest)).1 = _ ∧ _ :=
    w.storeByPath_append hreads
  have hstop : w.storeByPath σ (w.heapAfterReads σ h host before) host
      (putPaths entries (before.zip vs)) (p :: rest) = (putPaths entries (before.zip vs),
        (w.readPath σ (w.heapAfterReads σ h host before) host p).andThen fun _ h => .pure h ()) := by
    rw [storeByPath, hp]
  rw [hstop] at hmap hends
  have hraise := Report.andThen_error (f := fun _ h => Report.pure h ()) hp
  refine ⟨hmap, hends.trans (hraise.trans ⟨rfl, ?_⟩)⟩
  rw [heapAfterReads, heapAfterReads, List.foldl_append]
  rfl

end Map

/-! ## Writing -/

/-- The heap that writes leave that are done one after the other. -/
def heapAfter (w : Walker) (σ : Schema) (h : Heap) (host : Value) (es : List (Path × Value)) : Heap :=
  es.foldl (fun h e => (w.writePath σ h host e.1 e.2).heap) h

/-- The results of writes that are done one after the other, each on the heap that those before it
left. -/
def singleWrites (w : Walker) (σ : Schema) (h : Heap) (host : Value) :
    List (Path × Value) → List (Except Raised Bool)
  | [] => []
  | e :: es =>
    let r := w.writePath σ h host e.1 e.2
    r.result :: w.singleWrites σ r.heap host es

/-- After the first writes the batch goes on with the heap and the count that they left. -/
theorem writeEach_append {done more : List (Path × Value)} {bs : List Bool} {count : Nat}
    (hwrites : w.singleWrites σ h host done = bs.map .ok) :
    (w.writeEach σ h host count (done ++ more)).EndsAs
      (w.writeEach σ (w.heapAfter σ h host done) host (count + bs.count true) more) := by
  induction done generalizing h bs count with
  | nil =>
    obtain rfl := List.map_eq_nil_iff.1 hwrites.symm
    exact ⟨rfl, rfl⟩
  | cons e done ih =>
    obtain ⟨b, bs, rfl, hb, hbs⟩ := List.map_eq_cons_iff.1 hwrites.symm
    have hcount : (if b then count + 1 else count) + bs.count true = count + (b :: bs).count true := by
      cases b
      · simp
      · simp only [if_true, List.count_cons_self]
        omega
    rw [← hcount]
    exact (Report.andThen_ok hb.symm).trans (ih hbs.symm)

theorem writeEach_eq_ok {es : List (Path × Value)} {bs : List Bool}
    (hwrites : w.singleWrites σ h host es = bs.map .ok) :
    (w.writeEach σ h host 0 es).EndsAs ⟨.ok (bs.count true), w.heapAfter σ h host es, [], []⟩ := by
  have hall : (w.writeEach σ h host 0 (es ++ [])).EndsAs _ := w.writeEach_append hwrites
  rwa [List.append_nil, Nat.zero_add] at hall

theorem writeEach_eq_error {done more : List (Path × Value)} {bs : List Bool}
    (hwrites : w.singleWrites σ h host done = bs.map .ok) {e : Path × Value} {x : Raised}
    (he : (w.writePath σ (w.heapAfter σ h host done) host e.1 e.2).result = .error x) :
    (w.writeEach σ h host 0 (done ++ e :: more)).EndsAs
      ⟨.error x, w.heapAfter σ h host (done ++ [e]), [], []⟩ := by
  have hstop := Report.andThen_error (f := fun written h =>
    w.writeEach σ h host (if written then 0 + bs.count true + 1 else 0 + bs.count true) more) he
  refine (w.writeEach_append hwrites).trans (hstop.trans ⟨rfl, ?_⟩)
  rw [heapAfter, heapAfter, List.foldl_append]
  rfl

/-! ## Whole batches -/

/-- Whether the reads of a walker stop at a path: those before it give values, and it raises
something. -/
structure ReadsStop (w : Walker) (σ : Schema) (h : Heap) (host : Value) (before : List Path) (p : Path)
    (vs : List Value) (e : Raised) : Prop where
  paths : ∃ after, w.paths = before ++ p :: after
  reads : w.singleReads σ h host before = vs.map .ok
  raised : (w.readPath σ (w.heapAfterReads σ h host before) host p).result = .error e

/-- Whether the writes of a batch stop at an entry: those before it are done or left undone, and it
raises something. -/
structure WritesStop (w : Walker) (σ : Schema) (h : Heap) (host : Value) (values : List Value)
    (before : List (Path × Value)) (e : Path × Value) (x : Raised) : Prop where
  entries : ∃ after, w.paths.zip values = before ++ e :: after
  writes : ∃ bs : List Bool, w.singleWrites σ h host before = bs.map .ok
  raised : (w.writePath σ (w.heapAfter σ h host before) host e.1 e.2).result = .error x

section Batches

variable {p : Path} {e : Raised} {o : Address} {items : List Value} {old : List (Path × Value)}
  {values : List Value}

theorem readValues_eq_ok (hreads : w.singleReads σ h host w.paths = vs.map .ok) :
    (w.readValues σ h host).EndsAs ⟨.ok vs, w.heapAfterReads σ h host w.paths, [], []⟩ :=
  w.readEach_eq_ok hreads

theorem readValues_eq_error (hstop : w.ReadsStop σ h host before p vs e) :
    (w.readValues σ h host).EndsAs
      ⟨.error e, w.heapAfterReads σ h host (before ++ [p]), [], []⟩ := by
  obtain ⟨⟨after, hpaths⟩, hreads, hp⟩ := hstop
  rw [readValues, hpaths]
  exact w.readEach_eq_error hreads hp

theorem readInto_of_le (ho : h.get? o = some (.list items)) (hroom : w.paths.length ≤ items.length) :
    w.readInto σ h host (.ref o) = w.storeEach σ h host (.ref o) 0 w.paths := by
  have hlength : h.length (.ref o) = .ok items.length := by
    rw [Heap.length, ho]
    rfl
  rw [readInto, hlength]
  exact if_neg (Nat.not_lt.2 hroom)

theorem readInto_of_lt (ho : h.get? o = some (.list items)) (hshort : items.length < w.paths.length) :
    w.readInto σ h host (.ref o) =
      .raise h (.outputTooShort items.length w.paths.length) := by
  have hlength : h.length (.ref o) = .ok items.length := by
    rw [Heap.length, ho]
    rfl
  rw [readInto, hlength]
  exact if_pos hshort

/-- The host lies in the region of what is reached from it now or later, but the list does not. -/
theorem far_of_not_reachesLater (ho : h.get? o = some (.list items))
    (hfar : ¬ h.ReachesLater σ w.keys host o) :
    host.LiesIn (fun a => h.ReachesLater σ w.keys host a ∨ h.nodes.size ≤ a) ∧
      ¬ (h.ReachesLater σ w.keys host o ∨ h.nodes.size ≤ o) :=
  ⟨fun _ ha => .inl (.inl (.here ha)),
    not_or.2 ⟨hfar, Nat.not_le.2 (Heap.lt_size_of_get? ho)⟩⟩

theorem readInto_eq_ok (ho : h.get? o = some (.list items))
    (hfar : ¬ h.ReachesLater σ w.keys host o) (hroom : w.paths.length ≤ items.length)
    (hreads : w.singleReads σ h host w.paths = vs.map .ok) :
    (w.readInto σ h host (.ref o)).EndsAs ⟨.ok (), (w.heapAfterReads σ h host w.paths).set o
      (.list (vs ++ items.drop w.paths.length)), [], []⟩ := by
  obtain ⟨hhost, hfar⟩ := w.far_of_not_reachesLater ho hfar
  rw [w.readInto_of_le ho hroom, ← w.length_eq_of_singleReads hreads]
  exact w.storeEach_eq_ok Heap.sameWithin_reachesLater Heap.takes_reachesLater hhost hfar ho hreads
    hroom

theorem readInto_eq_error (ho : h.get? o = some (.list items))
    (hfar : ¬ h.ReachesLater σ w.keys host o) (hroom : w.paths.length ≤ items.length)
    (hstop : w.ReadsStop σ h host before p vs e) :
    (w.readInto σ h host (.ref o)).EndsAs ⟨.error e,
      (w.heapAfterReads σ h host (before ++ [p])).set o
        (.list (vs ++ items.drop before.length)), [], []⟩ := by
  obtain ⟨⟨after, hpaths⟩, hreads, hp⟩ := hstop
  obtain ⟨hhost, hfar⟩ := w.far_of_not_reachesLater ho hfar
  have hbefore : before.length ≤ items.length := by
    rw [hpaths, List.length_append] at hroom
    exact Nat.le_of_add_right_le hroom
  rw [w.readInto_of_le ho hroom, hpaths, ← w.length_eq_of_singleReads hreads]
  exact w.storeEach_eq_error Heap.sameWithin_reachesLater Heap.takes_reachesLater hhost hfar ho hreads
    hbefore hp

theorem readIntoMap_eq_ok (hold : OneEach old)
    (hreads : w.singleReads σ h host w.paths = vs.map .ok) :
    Overridden old (w.paths.zip vs) (w.mapLeft σ h host old) ∧
      (w.readIntoMap σ h host old).EndsAs
        ⟨.ok (w.mapLeft σ h host old), w.heapAfterReads σ h host w.paths, [], []⟩ := by
  obtain ⟨hmap, hends⟩ : (w.storeByPath σ h host old w.paths).1 = _ ∧ _ :=
    w.storeByPath_eq_ok hreads
  refine ⟨?_, hends.andThen_ok.trans ⟨rfl, rfl⟩⟩
  rw [mapLeft, hmap]
  exact overridden_putPaths hold _

theorem readIntoMap_eq_error (hold : OneEach old) (hstop : w.ReadsStop σ h host before p vs e) :
    Overridden old (before.zip vs) (w.mapLeft σ h host old) ∧
      (w.readIntoMap σ h host old).EndsAs
        ⟨.error e, w.heapAfterReads σ h host (before ++ [p]), [], []⟩ := by
  obtain ⟨⟨after, hpaths⟩, hreads, hp⟩ := hstop
  obtain ⟨hmap, hends⟩ : (w.storeByPath σ h host old (before ++ p :: after)).1 = _ ∧ _ :=
    w.storeByPath_eq_error hreads hp
  rw [← hpaths] at hmap hends
  refine ⟨?_, hends.andThen_error⟩
  rw [mapLeft, hmap]
  exact overridden_putPaths hold _

/-- A batch of as many values as paths ends as its writes do. -/
theorem writeValues_endsAs (hcount : values.length = w.paths.length) :
    (w.writeValues σ h host values).EndsAs (w.writeEach σ h host 0 (w.paths.zip values)) := by
  rw [writeValues, if_neg (not_not.2 hcount)]
  cases hr : (w.writeEach σ h host 0 (w.paths.zip values)).result with
  | ok n => exact (Report.andThen_ok hr).trans ⟨hr.symm, rfl⟩
  | error e => exact (Report.andThen_error hr).trans ⟨hr.symm, rfl⟩

theorem writeValues_eq_ok (hcount : values.length = w.paths.length) {bs : List Bool}
    (hwrites : w.singleWrites σ h host (w.paths.zip values) = bs.map .ok) :
    (w.writeValues σ h host values).EndsAs
      ⟨.ok (bs.count true), w.heapAfter σ h host (w.paths.zip values), [], []⟩ :=
  (w.writeValues_endsAs hcount).trans (w.writeEach_eq_ok hwrites)

theorem writeValues_eq_error (hcount : values.length = w.paths.length)
    {done : List (Path × Value)} {entry : Path × Value}
    (hstop : w.WritesStop σ h host values done entry e) :
    (w.writeValues σ h host values).EndsAs
      ⟨.error e, w.heapAfter σ h host (done ++ [entry]), [], []⟩ := by
  obtain ⟨⟨after, hes⟩, ⟨bs, hwrites⟩, he⟩ := hstop
  refine (w.writeValues_endsAs hcount).trans ?_
  rw [hes]
  exact w.writeEach_eq_error hwrites he

end Batches

/-- Whether the batches of a walker agree with single operations: with reads and writes that are done
one after the other, each on the heap that those before it left.  The caller's list at `o` has some
items, and the caller's map some old entries. -/
structure BatchesAgree (w : Walker) (σ : Schema) (h : Heap) (host : Value) (o : Address)
    (items : List Value) (old : List (Path × Value)) (values : List Value) : Prop where
  values_read : ∀ vs, w.singleReads σ h host w.paths = vs.map .ok →
    (w.readValues σ h host).EndsAs ⟨.ok vs, w.heapAfterReads σ h host w.paths, [], []⟩
  /-- The values stand at the first positions of the list, and the others keep their items. -/
  list_filled : ∀ vs, w.paths.length ≤ items.length →
    w.singleReads σ h host w.paths = vs.map .ok →
    (w.readInto σ h host (.ref o)).EndsAs ⟨.ok (), (w.heapAfterReads σ h host w.paths).set o
      (.list (vs ++ items.drop w.paths.length)), [], []⟩
  map_filled : ∀ vs, w.singleReads σ h host w.paths = vs.map .ok →
    Overridden old (w.paths.zip vs) (w.mapLeft σ h host old) ∧
      (w.readIntoMap σ h host old).EndsAs
        ⟨.ok (w.mapLeft σ h host old), w.heapAfterReads σ h host w.paths, [], []⟩
  /-- Where a read raises something, the batch raises the same. -/
  reading_stopped : ∀ before p vs e, w.ReadsStop σ h host before p vs e →
    (w.readValues σ h host).EndsAs ⟨.error e, w.heapAfterReads σ h host (before ++ [p]), [], []⟩
  list_stopped : ∀ before p vs e, w.paths.length ≤ items.length →
    w.ReadsStop σ h host before p vs e →
    (w.readInto σ h host (.ref o)).EndsAs ⟨.error e,
      (w.heapAfterReads σ h host (before ++ [p])).set o
        (.list (vs ++ items.drop before.length)), [], []⟩
  map_stopped : ∀ before p vs e, w.ReadsStop σ h host before p vs e →
    Overridden old (before.zip vs) (w.mapLeft σ h host old) ∧
      (w.readIntoMap σ h host old).EndsAs
        ⟨.error e, w.heapAfterReads σ h host (before ++ [p]), [], []⟩
  /-- Every write is done or left undone, and those that are done are counted. -/
  written : ∀ bs : List Bool, values.length = w.paths.length →
    w.singleWrites σ h host (w.paths.zip values) = bs.map .ok →
    (w.writeValues σ h host values).EndsAs
      ⟨.ok (bs.count true), w.heapAfter σ h host (w.paths.zip values), [], []⟩
  writing_stopped : ∀ done entry e, values.length = w.paths.length →
    w.WritesStop σ h host values done entry e →
    (w.writeValues σ h host values).EndsAs
      ⟨.error e, w.heapAfter σ h host (done ++ [entry]), [], []⟩
  /-- A list that is too short is refused before anything is done. -/
  list_too_short : items.length < w.paths.length →
    w.readInto σ h host (.ref o) = .raise h (.outputTooShort items.length w.paths.length) ∧
      (Fault.outputTooShort items.length w.paths.length).kind = .valueError
  count_differs : values.length ≠ w.paths.length →
    w.writeValues σ h host values = .raise h (.valueCount values.length w.paths.length) ∧
      (Fault.valueCount values.length w.paths.length).kind = .valueError

/-- A batch agrees with single operations.  It returns, or leaves in a list that the host does not
reach or in a map, what the single reads give; it leaves the heap of the single writes and returns how
many were done.  Where one of them raises something the batch raises the same and stops: what was done
before stays, and nothing else is touched.  A list that is too short and a wrong number of values are
refused before anything is done. -/
theorem batches_agree (w : Walker) {σ : Schema} {h : Heap} {host : Value} {o : Address}
    {items : List Value} {old : List (Path × Value)} (values : List Value)
    (ho : h.get? o = some (.list items)) (hfar : ¬ h.ReachesLater σ w.keys host o)
    (hold : OneEach old) : w.BatchesAgree σ h host o items old values where
  values_read _ := w.readValues_eq_ok
  list_filled _ := w.readInto_eq_ok ho hfar
  map_filled _ := w.readIntoMap_eq_ok hold
  reading_stopped _ _ _ _ := w.readValues_eq_error
  list_stopped _ _ _ _ := w.readInto_eq_error ho hfar
  map_stopped _ _ _ _ := w.readIntoMap_eq_error hold
  written _ hcount := w.writeValues_eq_ok hcount
  writing_stopped _ _ _ hcount := w.writeValues_eq_error hcount
  list_too_short hshort := ⟨w.readInto_of_lt ho hshort, rfl⟩
  count_differs hcount := ⟨if_pos hcount, rfl⟩

/-- A dictionary with a list, and a list of the caller that holds the dictionary. -/
def ledger : Heap :=
  ⟨#[.dict .plain [(.scalar (.text "a"), .scalar (.int 1)), (.scalar (.text "l"), .ref 1),
      (.scalar (.text "b"), .scalar (.int 2))],
    .list [.scalar (.int 7)], .list [.scalar .null, .scalar .null, .scalar .null, .ref 0]]⟩

theorem ledger_far : ¬ ledger.Reaches {} (.ref 0) 2 := by
  intro hreach
  refine absurd (hreach.closed (S := fun a => a = 0 ∨ a = 1) (liesIn_ref.2 (.inl rfl)) ?_)
    (by decide)
  rintro b c (rfl | rfl) hc
  · have hmentions : ledger.mentionsAt {} 0 = [1] := by decide
    rw [hmentions] at hc
    exact .inr (List.mem_singleton.1 hc)
  · have hmentions : ledger.mentionsAt {} 1 = [] := by decide
    rw [hmentions] at hc
    cases hc

/-- No dictionary there has a default. -/
theorem ledger_plain (d : Address) (es : Entries) : ledger.get? d ≠ some (.dict .defaulting es) := by
  intro hd
  have hmem : Node.dict .defaulting es ∈ ledger.nodes.toList :=
    List.mem_of_getElem? (Array.getElem?_toList.trans hd)
  simp [ledger] at hmem

/-- The second of three paths leads nowhere: the reads and the writes stop after the first. -/
theorem batches_agree_ledger :
    let w : Walker := ⟨["a", "l.5", "b"].map Path.parse, true, none⟩
    let e : Raised := .failure ⟨.indexOutOfBounds, Path.parse "l.5", 1, none⟩
    (w.readValues {} ledger (.ref 0)).EndsAs ⟨.error e, ledger, [], []⟩ ∧
      (w.readInto {} ledger (.ref 0) (.ref 2)).EndsAs ⟨.error e,
        ledger.set 2 (.list [.scalar (.int 1), .scalar .null, .scalar .null, .ref 0]), [], []⟩ ∧
      Overridden [] [(Path.parse "a", .scalar (.int 1))] (w.mapLeft {} ledger (.ref 0) []) ∧
      (w.writeValues {} ledger (.ref 0) [.scalar (.int 8), .scalar (.int 9), .scalar .null]).EndsAs
        ⟨.error e, (w.writePath {} ledger (.ref 0) (Path.parse "a") (.scalar (.int 8))).heap,
          [], []⟩ := by
  intro w e
  have hlater : ¬ ledger.ReachesLater {} none (.ref 0) 2 := by
    rintro (hreach | ⟨d, es, k, -, hdict, -⟩)
    · exact ledger_far hreach
    · exact ledger_plain d es hdict
  have hall := @batches_agree w {} ledger (.ref 0) 2 _ []
    [.scalar (.int 8), .scalar (.int 9), .scalar .null] rfl hlater .nil
  have hstop : w.ReadsStop {} ledger (.ref 0) [Path.parse "a"] (Path.parse "l.5")
      [.scalar (.int 1)] e := ⟨⟨[Path.parse "b"], rfl⟩, by cbv, by cbv⟩
  have hleft : w.heapAfterReads {} ledger (.ref 0) ([Path.parse "a"] ++ [Path.parse "l.5"]) =
      ledger := by cbv
  have hwriting := hall.writing_stopped [(Path.parse "a", .scalar (.int 8))]
    (Path.parse "l.5", .scalar (.int 9)) e rfl
    ⟨⟨[(Path.parse "b", .scalar .null)], rfl⟩, ⟨[true], by cbv⟩, by cbv⟩
  have hreading := hall.reading_stopped _ _ _ _ hstop
  have hlist := hall.list_stopped _ _ _ _ (by decide) hstop
  rw [hleft] at hreading hlist
  exact ⟨hreading, hlist, (hall.map_stopped _ _ _ _ hstop).1, hwriting.trans ⟨rfl, by cbv⟩⟩

/-- A dictionary with a default that is chained to a dictionary with one key, beside the chain. -/
def chainedLedger : Heap :=
  ⟨#[.list [.ref 1, .ref 2], .chain [2, 3], .dict .defaulting [],
    .dict .plain [(.scalar (.text "a"), .scalar (.int 1))]]⟩

/-- The segment `k` stands for an object, and every other one for itself. -/
def tagKeys : Deserializer := fun p i =>
  match p.segment i with
  | .ok s => if s = some "k" then .key (.ref 4) else .key (segmentKey s)
  | .error f => .raised f

/-- A dictionary with a default in a mapping of the user, beside a view of its items.  The object that
is a key holds the list of the caller. -/
def taggedLedger : Heap :=
  ⟨#[.list [.ref 1, .ref 3], .userMap 2 none [], .dict .defaulting [], .view .items 2,
    .object "Tag" [("out", .ref 5)], .list [.scalar .null, .scalar .null]]⟩

/-- The class of this object. -/
def tagSchema : Schema := ⟨[{ name := "Tag", kind := .plain }]⟩

theorem taggedLedger_far : ¬ taggedLedger.Reaches tagSchema (.ref 0) 5 := by
  intro hreach
  have hmentions : ∀ b ≤ 3, ∀ c ∈ taggedLedger.mentionsAt tagSchema b, c ≤ 3 := by decide
  have hclosed := hreach.closed (S := (· ≤ 3)) (liesIn_ref.2 (by decide))
    fun {b c} hb hc => hmentions b hb c hc
  exact absurd hclosed (by decide)

/-- A read that comes after another one finds the default that this has added, and not what it would
find alone.  A default under a key leads to a list that the host does not reach before, so a later
read finds what the batch has stored there. -/
theorem batches_disturbed :
    (let w : Walker := ⟨["0.a", "1.a"].map Path.parse, false, none⟩
    (w.readPath {} chainedLedger (.ref 0) (Path.parse "1.a")).result = .ok (.scalar .null) ∧
      (w.readValues {} chainedLedger (.ref 0)).result = .ok [.ref 4, .ref 4]) ∧
    (let w : Walker := ⟨["0.k", "1.0.0.out.0"].map Path.parse, false, some tagKeys⟩
    ¬ taggedLedger.Reaches tagSchema (.ref 0) 5 ∧
      w.singleReads tagSchema taggedLedger (.ref 0) w.paths = [.ok (.ref 6), .ok (.scalar .null)] ∧
      (w.readInto tagSchema taggedLedger (.ref 0) (.ref 5)).heap.get? 5 =
        some (.list [.ref 6, .ref 6])) := by
  have hmissed : chainedLedger.walk {} none (.ref 0) (Path.parse "1.a") 0 =
      .fail ⟨.noSuchKey, Path.parse "1.a", 1, none⟩ := by cbv
  exact ⟨⟨congrArg (Outcome.settle false _) hmissed, by cbv⟩, taggedLedger_far, by cbv, by cbv⟩

end Walker

end Dotpath

import Dotpath.Proofs.Array.Exact
import Dotpath.Proofs.Walk.ArrayPart
import Dotpath.Proofs.Walk.Policy

/-!
# Filling parts of arrays

A value that an element keeps goes into every cell of the part of an array to which it is written, and
into no other (`Heap.FillsCells`).  A single cell then reads what the element keeps
(`Walker.writePath_textArray`).  But a write that stops at a row fills the row, and reading it gives
the row back, not the value (`Walker.writePath_arrayPart`).
-/

namespace Dotpath

namespace Heap

variable {σ : Schema} {h h' : Heap} {keys : Option Deserializer} {p : Path} {c v : Value}
  {t : ElementType} {a : Address} {offset start count i k n o : Nat} {shape inner rest : List Nat}
  {s : Segment} {r : Scalar}

/-! ## Filling -/

/-- Whether a heap is another one with a scalar in consecutive cells of an array. -/
structure FillsCells (h : Heap) (a : Address) (start count : Nat) (r : Scalar) (h' : Heap) :
    Prop where
  cells : ∀ {t shape cells writeable}, h.get? a = some (.grid t shape cells writeable) →
    ∃ cells', h'.get? a = some (.grid t shape cells' writeable) ∧
      cells'.length = cells.length ∧
      ∀ j, cells'[j]? = if start ≤ j ∧ j < start + count then some (.scalar r) else cells[j]?
  nodes : ∀ b, b ≠ a → h'.get? b = h.get? b

theorem length_overwrite_replicate {cells : List Value} (hlen : start + count ≤ cells.length)
    (x : Value) : (overwrite cells start (List.replicate count x)).length = cells.length := by
  simp only [overwrite, List.length_append, List.length_take, List.length_replicate,
    List.length_drop]
  omega

theorem getElem?_overwrite_replicate {cells : List Value} (hlen : start + count ≤ cells.length)
    (x : Value) (j : Nat) : (overwrite cells start (List.replicate count x))[j]? =
      if start ≤ j ∧ j < start + count then some x else cells[j]? := by
  have htake : (cells.take start).length = start := by
    rw [List.length_take]
    omega
  rw [overwrite, List.append_assoc, List.length_replicate]
  by_cases hbefore : j < start
  · rw [List.getElem?_append_left (by omega), List.getElem?_take_of_lt hbefore,
      if_neg (by omega)]
  · rw [List.getElem?_append_right (by omega), htake]
    by_cases hwithin : j < start + count
    · rw [List.getElem?_append_left (by rw [List.length_replicate]; omega),
        List.getElem?_replicate_of_lt (by omega), if_pos ⟨by omega, hwithin⟩]
    · rw [List.getElem?_append_right (by rw [List.length_replicate]; omega), List.length_replicate,
        List.getElem?_drop, if_neg (by omega)]
      congr 1
      omega

theorem ArrayPart.of_fillsCells (hc : h.ArrayPart c a t offset shape)
    (hfills : h.FillsCells a start count r h') : h'.ArrayPart c a t offset shape := by
  cases hc with
  | whole ha hcells =>
    obtain ⟨cells', ha', hlen, -⟩ := hfills.cells ha
    exact .whole ha' (by rwa [hlen])
  | row ha hcells =>
    obtain ⟨cells', ha', hlen, -⟩ := hfills.cells ha
    exact .row ha' (by rwa [hlen])

/-- What is read of a part that has been filled: the scalar in a cell, or the row. -/
theorem partValue_of_fillsCells (hc : h.ArrayPart c a t offset shape) (hplain : r.plain = r)
    (hfills : h.FillsCells a o (cellCount rest) r h') :
    h'.partValue a o rest = if rest = [] then .scalar r else .row a o rest := by
  cases rest with
  | nil =>
    obtain ⟨whole, cells, ha, -⟩ := hc.exists_cells
    obtain ⟨cells', ha', -, hcells'⟩ := hfills.cells ha
    have hcell : cells'[o]? = some (.scalar r) := by
      rw [hcells', if_pos ⟨Nat.le_refl o, by rw [cellCount]; omega⟩]
    rw [partValue, gridCells, ha', if_pos rfl]
    simp only [List.getD_eq_getElem?_getD, hcell, Option.getD_some, plainElement, hplain]
  | cons n rest => rfl

/-- The other members of an array of one dimension stay when a cell is filled. -/
theorem member?_of_fillsCells (hc : h.ArrayPart c a t offset [n])
    (hfills : h.FillsCells a (offset + i) 1 r h') (hk : k ≠ i) : h'.member? c k = h.member? c k := by
  obtain ⟨whole, cells, ha, -⟩ := hc.exists_cells
  obtain ⟨cells', ha', -, hcells'⟩ := hfills.cells ha
  have hcell : cells'[offset + k]? = cells[offset + k]? := by rw [hcells', if_neg (by omega)]
  rw [hc.member?, (hc.of_fillsCells hfills).member?, gridCells, gridCells, ha, ha']
  dsimp only [gridMember]
  rw [hcell]

theorem fill_of_keeps (hv : t.Keeps v r) (shape : List Nat) :
    h.fill t shape v = .ok (List.replicate (cellCount shape) (.scalar r)) := by
  obtain ⟨x, rfl⟩ := hv.exists_scalar
  have hconvert : h.convert t (.scalar x) = .ok (.scalar r) := by
    rw [convert, if_pos hv.accepts, ElementType.cell_of_keeps hv]
  rw [fill, hconvert]
  rfl

/-- A value that an element keeps fills the part at an index. -/
theorem setItem_of_keeps (hc : h.ArrayPart c a t offset (n :: inner)) (hi : i < n)
    (hv : t.Keeps v r) : ∃ h', h.setItem c i v = .ok h' ∧
      h.FillsCells a (offset + i * cellCount inner) (cellCount inner) r h' := by
  obtain ⟨whole, cells, ha, hlen⟩ := (hc.at_index hi).exists_cells
  refine ⟨h.set a (.grid t whole (overwrite cells (offset + i * cellCount inner)
    (List.replicate (cellCount inner) (.scalar r))) true), ?_, ?_, ?_⟩
  · rw [hc.setItem, storeMember, ha]
    dsimp only
    rw [List.drop_one, List.tail_cons, fill_of_keeps hv]
    rfl
  · intro t' shape' cells' writeable' ha'
    rw [ha] at ha'
    cases ha'
    exact ⟨_, get?_set_self _ ha, length_overwrite_replicate hlen _,
      getElem?_overwrite_replicate hlen _⟩
  · intro b hb
    exact get?_set_ne _ (Ne.symm hb)

/-! ## Writing -/

section Put

variable (σ : Schema) (keys : Option Deserializer) (hc : h.ArrayPart c a t offset (n :: inner))
  (hs : p.segment p.lastIndex = .ok s) (hparse : parseIndex s = .ok (some i)) (hi : i < n)

include hc hs hparse hi

theorem lastMember_of_arrayPart : h.lastMember c p = .done i :=
  (lastMember_eq_done hs).2 ⟨hparse, n, hc.length, hi⟩

theorem put_of_keeps (hv : t.Keeps v r) : ∃ h', h.put σ keys c p v = .done h' ∧
    h.FillsCells a (offset + i * cellCount inner) (cellCount inner) r h' := by
  obtain ⟨h', hset, hfills⟩ := setItem_of_keeps hc hi hv
  refine ⟨h', ?_, hfills⟩
  have htakes : h.takes c v = true := by
    rw [takes, hc.grid?]
    exact hv.accepts
  have hlast := lastMember_of_arrayPart hc hs hparse hi
  rw [put, hc.classify]
  cases t.isReference with
  | true => simp [putInto, putElement, htakes, hlast, hc.isWriteable, hset, Pure.pure]
  | false => simp [putInto, putMachine, htakes, hlast, hc.isWriteable, hset, Pure.pure]

/-- A value that the elements do not take is a mismatch. -/
theorem put_of_not_accepts (hv : t.accepts v = false) : h.put σ keys c p v =
    .fail ⟨.cannotAssign (h.typeName v) (h.elementName c), p, p.lastIndex, none⟩ := by
  have htakes : h.takes c v = false := by
    rw [takes, hc.grid?]
    exact hv
  have hlast := lastMember_of_arrayPart hc hs hparse hi
  have hfail : h.unassignable c p v none =
      .fail ⟨.cannotAssign (h.typeName v) (h.elementName c), p, p.lastIndex, none⟩ :=
    failAt_of_segment hs _ _
  rw [put, hc.classify]
  cases t.isReference with
  | true => simp [putInto, putElement, htakes, hfail]
  | false => simp [putInto, putMachine, htakes, hlast, hc.isWriteable, hfail]

end Put

end Heap

namespace Walker

open Heap

variable (w : Walker) {σ : Schema} {h : Heap} {host c v : Value} {a : Address} {t : ElementType}
  {p : Path} {s : Segment} {r : Scalar} {offset i n o : Nat} {shape inner is rest : List Nat} {j : Int}

/-! ### Through the parent -/

/-- The walk to the parent leaves the array. -/
theorem arrayPart_leftByParent (σ : Schema) (hc : h.ArrayPart c a t offset shape) (host : Value)
    (p : Path) :
    (h.leftByParent σ w.keys host p).ArrayPart c a t offset shape :=
  hc.of_addsDefaults (addsDefaults_leftByParent σ h w.keys host p)

section Parent

variable (hparent : h.parentOf σ w.keys host p = .done (c, j))
  (hc : h.ArrayPart c a t offset (n :: inner)) (hs : p.segment p.lastIndex = .ok s)
  (hparse : parseIndex s = .ok (some i)) (hi : i < n)

include hparent hc hs hparse hi

/-- A write to an array fills the part at the last index with what an element keeps. -/
theorem fillsCells_writePath (hv : t.Keeps v r) : (w.writePath σ h host p v).result = .ok true ∧
    (h.leftByParent σ w.keys host p).FillsCells a (offset + i * cellCount inner) (cellCount inner) r
      (w.writePath σ h host p v).heap := by
  have hc' := arrayPart_leftByParent w σ hc host p
  obtain ⟨h', hput, hfills⟩ := put_of_keeps σ w.keys hc' hs hparse hi hv
  have hw := (write_of_parentOf hparent hc.isNull).trans hput
  rw [w.result_writePath_of_done hw, w.heap_writePath_of_done hw]
  exact ⟨rfl, hfills⟩

/-- A write of a value of which an element keeps nothing is a mismatch. -/
theorem write_of_not_keeps (ht : t.isExact = true) (hv : ¬ ∃ r, t.Keeps v r) :
    ∃ e, h.write σ w.keys host p v = .fail e ∧ e.code = .typeMismatch := by
  have hc' := arrayPart_leftByParent w σ hc host p
  have haccepts : t.accepts v = false :=
    Bool.eq_false_iff.2 fun haccepts => hv ((ElementType.accepts_iff_keeps ht).1 haccepts)
  rw [write_of_parentOf hparent hc.isNull, put_of_not_accepts σ w.keys hc' hs hparse hi haccepts]
  exact ⟨_, rfl, rfl⟩

theorem result_writePath_iff_keeps (ht : t.isExact = true) :
    (w.writePath σ h host p v).result = .ok true ↔ ∃ r, t.Keeps v r := by
  refine ⟨fun hwritten => ?_, fun ⟨r, hr⟩ =>
    (fillsCells_writePath w hparent hc hs hparse hi hr).1⟩
  by_contra hv
  obtain ⟨e, he, -⟩ := write_of_not_keeps w hparent hc hs hparse hi ht hv
  rw [result_writePath_eq_true, he] at hwritten
  obtain ⟨h', ⟨⟩⟩ := hwritten

theorem heap_writePath_of_not_keeps (ht : t.isExact = true) (hv : ¬ ∃ r, t.Keeps v r) :
    (w.writePath σ h host p v).heap = h.leftByParent σ w.keys host p := by
  obtain ⟨e, he, -⟩ := write_of_not_keeps w hparent hc hs hparse hi ht hv
  have hc' := arrayPart_leftByParent w σ hc host p
  have hfailed (h' : Heap) : h.write σ w.keys host p v ≠ .done h' := by
    rw [he]
    rintro ⟨⟩
  rw [w.heap_writePath_of_not_done hfailed, leftByWrite, hparent]
  dsimp only
  rw [hc.isNull, if_neg Bool.false_ne_true, leftByPut, hc'.classify]
  cases t.isReference <;> rfl

end Parent

/-- A write to an array of texts or bytes stores exactly those that an element has room for.  Then
the same segment reads the text or bytes without the zeros at their end, which are the ones that were
written exactly if they do not end in a zero, and nothing else has changed.  Any other value is a
mismatch, and nothing has changed.  What the walk to the array has changed on its way is no element of
it. -/
theorem writePath_textArray (hparent : h.parentOf σ w.keys host p = .done (c, j))
    (hc : h.ArrayPart c a t offset [n]) (ht : t.form = .text ∨ t.form = .bytes)
    (hs : p.segment p.lastIndex = .ok s) (hparse : parseIndex s = .ok (some i)) (hi : i < n)
    (v : Value) :
    let left := h.leftByParent σ w.keys host p
    ((w.writePath σ h host p v).result = .ok true ↔ ∃ r, t.Keeps v r) ∧
      (∀ x r, v = .scalar x → t.Keeps v r →
        (w.writePath σ h host p v).heap.step σ w.keys c p p.lastIndex = .done (.scalar r) ∧
          (r = x.plain ↔ ¬ x.plain.EndsInZero) ∧
          (∀ k, k ≠ i → (w.writePath σ h host p v).heap.member? c k = h.member? c k) ∧
          ∀ b, b ≠ a → (w.writePath σ h host p v).heap.get? b = left.get? b) ∧
      ((¬ ∃ r, t.Keeps v r) →
        (∃ e, h.write σ w.keys host p v = .fail e ∧ e.code = .typeMismatch) ∧
          (∀ k, (w.writePath σ h host p v).heap.member? c k = h.member? c k) ∧
          (w.writePath σ h host p v).heap = left) := by
  intro left
  have hexact : t.isExact = true := by
    rcases ht with ht | ht <;> rw [ElementType.isExact, ht]
  have hc' : left.ArrayPart c a t offset [n] := arrayPart_leftByParent w σ hc host p
  have hmember : left.member? c = h.member? c :=
    funext (hc.member?_of_addsDefaults (addsDefaults_leftByParent σ h w.keys host p))
  refine ⟨result_writePath_iff_keeps w hparent hc hs hparse hi hexact, fun x r hv hr => ?_,
    fun hnone => ?_⟩
  · have hfills := (fillsCells_writePath w hparent hc hs hparse hi hr).2
    refine ⟨?_, ?_, fun k hk => ?_, hfills.nodes⟩
    · rw [(hc'.of_fillsCells hfills).step_eq hs hparse hi,
        partValue_of_fillsCells hc' hr.plain hfills, if_pos rfl]
    · subst hv
      exact hr.eq_plain_iff
    · rw [cellCount, Nat.mul_one] at hfills
      rw [member?_of_fillsCells hc' hfills hk, hmember]
  · have hheap := heap_writePath_of_not_keeps w hparent hc hs hparse hi hexact hnone
    refine ⟨write_of_not_keeps w hparent hc hs hparse hi hexact hnone, fun k => ?_, hheap⟩
    rw [hheap, hmember]

/-- Two texts of three characters. -/
def textPair : Heap :=
  ⟨#[.grid ⟨"<U3", .text, 3⟩ [2] [.scalar (.text "x"), .scalar (.text "y")] true]⟩

/-- A text that fills its element is read as it was, but one that ends in a zero is read without it. -/
theorem writePath_textArray_textPair :
    (let r := writePath ⟨[], true, none⟩ {} textPair (.ref 0) (Path.parse "0")
        (.scalar (.text "abc"))
     r.result = .ok true ∧
        r.heap.step {} none (.ref 0) (Path.parse "0") 0 = .done (.scalar (.text "abc"))) ∧
      let r := writePath ⟨[], true, none⟩ {} textPair (.ref 0) (Path.parse "0")
        (.scalar (.text "a\x00"))
      r.result = .ok true ∧
        r.heap.step {} none (.ref 0) (Path.parse "0") 0 = .done (.scalar (.text "a")) := by
  have hc : textPair.ArrayPart (.ref 0) 0 ⟨"<U3", .text, 3⟩ 0 [2] := .whole rfl (by decide)
  have hparent : textPair.parentOf {} none (.ref 0) (Path.parse "0") = .done (.ref 0, 0) := by cbv
  have hzero : parseIndex (some "0") = .ok (some 0) := by cbv
  have hstores (x y : String) (hx : x.length ≤ 3)
      (hy : String.ofList (ElementType.trimEnd (Char.ofNat 0) x.toList) = y) :
      let r := writePath ⟨[], true, none⟩ {} textPair (.ref 0) (Path.parse "0") (.scalar (.text x))
      r.result = .ok true ∧
        r.heap.step {} none (.ref 0) (Path.parse "0") 0 = .done (.scalar (.text y)) := by
    subst hy
    obtain ⟨hwritten, hreads, -⟩ := writePath_textArray ⟨[], true, none⟩ hparent hc (.inl rfl)
      (by cbv) hzero (by decide) (.scalar (.text x))
    exact ⟨hwritten.2 ⟨_, .text rfl rfl hx⟩, (hreads _ _ rfl (.text rfl rfl hx)).1⟩
  exact ⟨hstores _ _ (by decide) (by decide), hstores _ _ (by decide) (by decide)⟩

/-! ### Along indices -/

theorem readPath_of_indices (hc : h.ArrayPart c a t offset shape) (hp : p.Indices 0 is)
    (hne : is ≠ []) (hpart : partAt? offset shape is = some (o, rest)) :
    (w.readPath σ h c p).result = .ok (h.partValue a o rest) := by
  obtain ⟨i, is, rfl⟩ := List.exists_cons_of_ne_nil hne
  have hwalk := hc.walk_eq σ w.keys hp hpart
  rw [Int.natCast_zero] at hwalk
  rw [readPath, readFrom, hwalk]
  rfl

/-- A write along indices into an array stores a value exactly if an element keeps something of it.
Then it fills the part that the indices lead to, and nothing else has changed: one cell, which reads
what an element keeps, or a row, which reads as a row.  Any other value is a mismatch, and nothing
has changed.  So a value is read as it was written exactly if the indices lead to a cell and the value
does not end in a zero. -/
theorem writePath_arrayPart (hc : h.ArrayPart c a t offset shape) (ht : t.isExact = true)
    (hp : p.Indices 0 is) (hne : is ≠ []) (hpart : partAt? offset shape is = some (o, rest))
    (v : Value) :
    ((w.writePath σ h c p v).result = .ok true ↔ ∃ r, t.Keeps v r) ∧
      (∀ s r, v = .scalar s → t.Keeps v r →
        h.FillsCells a o (cellCount rest) r (w.writePath σ h c p v).heap ∧
          ∃ u, (w.readPath σ (w.writePath σ h c p v).heap c p).result = .ok u ∧
            u = (if rest = [] then .scalar r else .row a o rest) ∧
            (u = .scalar s.plain ↔ rest = [] ∧ ¬ s.plain.EndsInZero)) ∧
      ((¬ ∃ r, t.Keeps v r) →
        (∃ e, h.write σ w.keys c p v = .fail e ∧ e.code = .typeMismatch) ∧
          (w.writePath σ h c p v).heap = h) := by
  obtain ⟨init, i, rfl⟩ : ∃ init i, is = init ++ [i] :=
    ⟨_, _, (List.dropLast_concat_getLast hne).symm⟩
  obtain ⟨d, j, o', n, hparent, hleft, hd, hi, rfl⟩ := hc.exists_parent σ w.keys hp hpart
  obtain ⟨⟨s, hs, hparse⟩, -⟩ := hp.append_singleton
  refine ⟨result_writePath_iff_keeps w hparent hd hs hparse hi ht, fun x r hv hr => ?_,
    fun hnone => ⟨write_of_not_keeps w hparent hd hs hparse hi ht hnone,
      (heap_writePath_of_not_keeps w hparent hd hs hparse hi ht hnone).trans hleft⟩⟩
  have hfills := (fillsCells_writePath w hparent hd hs hparse hi hr).2
  rw [hleft] at hfills
  refine ⟨hfills, _, readPath_of_indices w (hc.of_fillsCells hfills) hp hne hpart,
    partValue_of_fillsCells hc hr.plain hfills, ?_⟩
  rw [partValue_of_fillsCells hc hr.plain hfills]
  subst hv
  by_cases hrest : rest = []
  · rw [if_pos hrest, Value.scalar.injEq, hr.eq_plain_iff]
    exact (and_iff_right hrest).symm
  · rw [if_neg hrest]
    exact iff_of_false (by rintro ⟨⟩) fun hcell => hrest hcell.1

/-- Two rows of three integers. -/
def integerTable : Heap :=
  ⟨#[.grid ⟨"<i8", .signed, 8⟩ [2, 3] (List.replicate 6 (.scalar (.int 0))) true]⟩

/-- A number that is written to the first row fills it, and one that is written to the last cell
changes this cell. -/
theorem writePath_arrayPart_integerTable :
    (let r := writePath ⟨[], true, none⟩ {} integerTable (.ref 0) (Path.parse "0")
        (.scalar (.int 5))
     r.result = .ok true ∧ integerTable.FillsCells 0 0 3 (.int 5) r.heap ∧
        (readPath ⟨[], true, none⟩ {} r.heap (.ref 0) (Path.parse "0")).result =
          .ok (.row 0 0 [3])) ∧
      let r := writePath ⟨[], true, none⟩ {} integerTable (.ref 0) (Path.parse "1.2")
        (.scalar (.int 5))
      integerTable.FillsCells 0 5 1 (.int 5) r.heap ∧
        (readPath ⟨[], true, none⟩ {} r.heap (.ref 0) (Path.parse "1.2")).result =
          .ok (.scalar (.int 5)) := by
  have hc : integerTable.ArrayPart (.ref 0) 0 ⟨"<i8", .signed, 8⟩ 0 [2, 3] := .whole rfl (by decide)
  have hkeeps : ElementType.Keeps ⟨"<i8", .signed, 8⟩ (.scalar (.int 5)) (.int 5) :=
    .integer rfl rfl (by decide)
  have hzero : parseIndex (some "0") = .ok (some 0) := by cbv
  have hone : parseIndex (some "1") = .ok (some 1) := by cbv
  have htwo : parseIndex (some "2") = .ok (some 2) := by cbv
  have hrow : (Path.parse "0").Indices 0 [0] := List.Forall₂.cons hzero .nil
  have hcell : (Path.parse "1.2").Indices 0 [1, 2] := List.Forall₂.cons hone (.cons htwo .nil)
  have hfirst : partAt? 0 [2, 3] [0] = some (0, [3]) := by decide
  have hlast : partAt? 0 [2, 3] [1, 2] = some (5, []) := by decide
  refine ⟨?_, ?_⟩
  · obtain ⟨hwritten, hreads, -⟩ := writePath_arrayPart ⟨[], true, none⟩ (σ := {}) hc rfl hrow
      (by decide) hfirst (.scalar (.int 5))
    obtain ⟨hfills, u, hu, rfl, -⟩ := hreads _ _ rfl hkeeps
    exact ⟨hwritten.2 ⟨_, hkeeps⟩, hfills, hu⟩
  · obtain ⟨hfills, u, hu, rfl, -⟩ := (writePath_arrayPart ⟨[], true, none⟩ (σ := {}) hc rfl hcell
      (by decide) hlast (.scalar (.int 5))).2.1 _ _ rfl hkeeps
    exact ⟨hfills, hu⟩

end Walker

end Dotpath

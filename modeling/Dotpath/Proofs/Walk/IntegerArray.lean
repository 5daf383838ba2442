import Dotpath.Proofs.Walk.Filling

/-!
# Writing integers into arrays

An array of integers holds a value exactly or refuses it.  Its elements are cells of an array of
fixed-size elements, items of a plain array, or bytes (`Heap.IntegerArray`).  What an element holds
is stored as the integer that it stands for (`setItem_of_holds`), and no other value is stored
(`put_of_not_holds`).
-/

namespace Dotpath

namespace Heap

variable {σ : Schema} {h : Heap} {keys : Option Deserializer} {p : Path} {s : Segment}
  {c v : Value} {f : IntegerFormat} {t : ElementType} {a : Address} {offset size i : Nat} {n : Int}

/-- Whether a value is an array of integers that can be changed, with its length: an array of one
dimension, a row of one, a plain array or an array of bytes. -/
inductive IntegerArray (h : Heap) : Value → IntegerFormat → Nat → Prop
  | whole {a : Address} {t : ElementType} {f : IntegerFormat} {size : Nat} {cells : List Value}
      (ha : h.get? a = some (.grid t [size] cells true)) (ht : t.integers? = some f)
      (hcells : size ≤ cells.length) : IntegerArray h (.ref a) f size
  | row {a : Address} {t : ElementType} {f : IntegerFormat} {offset size : Nat} {shape : List Nat}
      {cells : List Value} (ha : h.get? a = some (.grid t shape cells true))
      (ht : t.integers? = some f) (hcells : offset + size ≤ cells.length) :
      IntegerArray h (.row a offset [size]) f size
  | plain {a : Address} {code : Char} {f : IntegerFormat} {items : List Scalar}
      (ha : h.get? a = some (.cells code items)) (hcode : plainIntegers? code = some f) :
      IntegerArray h (.ref a) f items.length
  | bytes {a : Address} {bs : List UInt8} (ha : h.get? a = some (.byteArray bs)) :
      IntegerArray h (.ref a) byteIntegers bs.length

theorem isReference_of_integers? (ht : t.integers? = some f) : t.isReference = false := by
  rcases ElementType.form_of_integers? ht with ⟨hform, -⟩ | ⟨hform, -⟩ <;>
    rw [ElementType.isReference, hform] <;> rfl

/-- A part of one dimension of an array whose elements are integers. -/
theorem ArrayPart.integerArray (hc : h.ArrayPart c a t offset [size]) (ht : t.integers? = some f) :
    h.IntegerArray c f size := by
  cases hc with
  | whole ha hcells => exact .whole ha ht (by simpa [cellCount] using hcells)
  | row ha hcells => exact .row ha ht (by simpa [cellCount] using hcells)

namespace IntegerArray

/-- An array and a row are parts of an array, so what holds of parts holds of both. -/
@[elab_as_elim]
theorem cases_part {motive : ∀ c f size, h.IntegerArray c f size → Prop}
    (part : ∀ {c a t f offset size} (hc : h.ArrayPart c a t offset [size])
      (ht : t.integers? = some f), motive c f size (hc.integerArray ht))
    (plain : ∀ {a code f items} (ha : h.get? a = some (.cells code items))
      (hcode : plainIntegers? code = some f), motive (.ref a) f items.length (.plain ha hcode))
    (bytes : ∀ {a bs} (ha : h.get? a = some (.byteArray bs)),
      motive (.ref a) byteIntegers bs.length (.bytes ha))
    (hc : h.IntegerArray c f size) : motive c f size hc := by
  cases hc with
  | whole ha ht hcells => exact part (.whole ha (by simpa [cellCount] using hcells)) ht
  | row ha ht hcells => exact part (.row ha (by simpa [cellCount] using hcells)) ht
  | plain ha hcode => exact plain ha hcode
  | bytes ha => exact bytes ha

theorem classify (hc : h.IntegerArray c f size) : h.classify c = .primitiveArray := by
  cases hc using cases_part with
  | part hc ht =>
    rw [hc.classify, isReference_of_integers? ht]
    rfl
  | plain ha | bytes ha =>
    simp [Heap.classify, isSequence, isArray, isMapping, isPrimitiveArray, grid?, ha]

theorem length (hc : h.IntegerArray c f size) : h.length c = .ok size := by
  cases hc using cases_part with
  | part hc => exact hc.length
  | plain ha | bytes ha =>
    rw [Heap.length, ha]
    simp [nodeLength, nodeMembers]

theorem isWriteable (hc : h.IntegerArray c f size) : h.isWriteable c = true := by
  cases hc using cases_part with
  | part hc => exact hc.isWriteable
  | plain ha | bytes ha => rw [Heap.isWriteable, ha]

theorem isNull (hc : h.IntegerArray c f size) : c.isNull = false := by
  cases hc using cases_part with
  | part hc => exact hc.isNull
  | plain | bytes => rfl

/-- What an element holds, the array takes. -/
theorem takes_of_holds (hc : h.IntegerArray c f size) (hv : f.Holds v n) : h.takes c v = true := by
  cases hc using cases_part with
  | part hc ht =>
    rw [takes, hc.grid?]
    exact (ElementType.accepts_iff_holds ht).2 ⟨n, hv⟩
  | plain ha | bytes ha => rw [takes, grid?, ha]

theorem of_addsDefaults {h' : Heap} {K : Value → Prop} (hadds : h.AddsDefaults K h')
    (hc : h.IntegerArray c f size) : h'.IntegerArray c f size := by
  cases hc using cases_part with
  | part hc ht => exact (hc.of_addsDefaults hadds).integerArray ht
  | plain ha hcode => exact .plain (hadds.get? ha (by rintro _ ⟨⟩)) hcode
  | bytes ha => exact .bytes (hadds.get? ha (by rintro _ ⟨⟩))

theorem member?_of_addsDefaults {h' : Heap} {K : Value → Prop} (hadds : h.AddsDefaults K h')
    (hc : h.IntegerArray c f size) (i : Nat) : h'.member? c i = h.member? c i := by
  cases hc using cases_part with
  | part hc => exact hc.member?_of_addsDefaults hadds i
  | plain ha | bytes ha =>
    rw [member?, member?, ha, hadds.get? ha (by rintro _ ⟨⟩)]
    rfl

/-- Nothing interrupts the run through an array of integers. -/
theorem interruption? (hc : h.IntegerArray c f size) (i : Nat) : h.interruption? c i = none := by
  cases hc using cases_part with
  | part hc => exact hc.interruption? i
  | plain ha | bytes ha => rw [Heap.interruption?, ha]

end IntegerArray

/-! ## Storing -/

/-- Whether a heap is another one with an integer stored at a position of an array. -/
structure StoresInteger (h : Heap) (c : Value) (i : Nat) (n : Int) (h' : Heap) : Prop where
  stored : h'.member? c i = some (.scalar (.int n))
  members : ∀ j, j ≠ i → h'.member? c j = h.member? c j
  nodes : ∀ b, h.storage? c ≠ some b → h'.get? b = h.get? b

/-- A cell filled with an integer is one stored in the part that the cell belongs to. -/
theorem ArrayPart.storesInteger {h' : Heap} (hc : h.ArrayPart c a t offset [size]) (hlt : i < size)
    (hfills : h.FillsCells a (offset + i) 1 (.int n) h') : h.StoresInteger c i n h' where
  stored := by
    obtain ⟨whole, cells, ha, -⟩ := hc.exists_cells
    obtain ⟨cells', ha', -, hcells'⟩ := hfills.cells ha
    rw [(hc.of_fillsCells hfills).member?, gridCells, ha']
    dsimp only [gridMember]
    rw [if_pos hlt, hcells', if_pos (by omega)]
  members j hj := member?_of_fillsCells hc hfills hj
  nodes b hb := hfills.nodes b fun hba => hb (hba ▸ hc.storage?)

theorem getElem?_set_of_lt {α : Type} {xs : List α} (hi : i < xs.length) (x : α) (j : Nat) :
    (xs.set i x)[j]? = if j = i then some x else xs[j]? := by
  by_cases hj : j = i
  · rw [if_pos hj, hj, List.getElem?_set_self hi]
  · rw [if_neg hj, List.getElem?_set_ne (Ne.symm hj)]

theorem storesInteger_of_set {m' : Node} (hstorage : h.storage? c = some a)
    (hmember : ∀ j, (h.set a m').member? c j =
      if j = i then some (.scalar (.int n)) else h.member? c j) :
    h.StoresInteger c i n (h.set a m') where
  stored := by rw [hmember, if_pos rfl]
  members j hj := by rw [hmember, if_neg hj]
  nodes b hb := by
    refine get?_set_ne _ ?_
    rintro rfl
    exact hb hstorage

/-- What an element holds is stored as the integer that it stands for. -/
theorem setItem_of_holds (hc : h.IntegerArray c f size) (hlt : i < size) (hv : f.Holds v n) :
    ∃ h', h.setItem c i v = .ok h' ∧ h'.IntegerArray c f size ∧ h.StoresInteger c i n h' := by
  cases hc using IntegerArray.cases_part with
  | part hc ht =>
    obtain ⟨h', hset, hfills⟩ := setItem_of_keeps hc hlt (ElementType.keeps_of_holds ht hv)
    rw [cellCount, Nat.mul_one] at hfills
    exact ⟨h', hset, (hc.of_fillsCells hfills).integerArray ht, hc.storesInteger hlt hfills⟩
  | @plain a code f items ha hcode =>
    have hcell := (plainCell_eq_ok_iff hcode (h.faultTypeName v)).2 ⟨n, hv, rfl⟩
    refine ⟨h.set a (.cells code (items.set i (.int n))), ?_, ?_,
      storesInteger_of_set (by rw [storage?, storageWith, ha]) fun j => ?_⟩
    · rw [setItem, ha]
      dsimp only
      rw [hcell]
      exact if_pos hlt
    · have hc := IntegerArray.plain (get?_set_self (.cells code (items.set i (.int n))) ha) hcode
      rwa [List.length_set] at hc
    · rw [member?, get?_set_self _ ha, member?, ha]
      dsimp only [nodeMembers]
      rw [List.map_set, getElem?_set_of_lt (by rwa [List.length_map])]
  | @bytes a bs ha =>
    obtain ⟨b, hb⟩ : ∃ b, byteValue b = .scalar (.int n) := ⟨_, byteValue_toUInt8 hv.2⟩
    have hcell := (byteCell_eq_ok_iff (h.faultTypeName v)).2 ⟨n, hv, hb⟩
    refine ⟨h.set a (.byteArray (bs.set i b)), ?_, ?_,
      storesInteger_of_set (by rw [storage?, storageWith, ha]) fun j => ?_⟩
    · rw [setItem, ha]
      dsimp only
      rw [hcell]
      exact if_pos hlt
    · have hc := IntegerArray.bytes (get?_set_self (.byteArray (bs.set i b)) ha)
      rwa [List.length_set] at hc
    · rw [member?, get?_set_self _ ha, member?, ha]
      dsimp only [nodeMembers]
      rw [List.map_set, hb, getElem?_set_of_lt (by rwa [List.length_map])]

/-- Nothing is stored of a value that the array takes but an element does not hold. -/
theorem exists_error_of_not_holds (hc : h.IntegerArray c f size) (htakes : h.takes c v = true)
    (hv : ¬ ∃ n, f.Holds v n) : ∃ e, h.setItem c i v = .error e := by
  cases hc using IntegerArray.cases_part with
  | part hc ht =>
    rw [takes, hc.grid?] at htakes
    exact absurd ((ElementType.accepts_iff_holds ht).1 htakes) hv
  | @plain a code f items ha hcode =>
    rw [setItem, ha]
    dsimp only
    cases hcell : plainCell code (h.faultTypeName v) v with
    | error e => exact ⟨e, rfl⟩
    | ok x =>
      obtain ⟨n, hn, -⟩ := (plainCell_eq_ok_iff hcode _).1 hcell
      exact absurd ⟨n, hn⟩ hv
  | @bytes a bs ha =>
    rw [setItem, ha]
    dsimp only
    cases hcell : byteCell (h.faultTypeName v) v with
    | error e => exact ⟨e, rfl⟩
    | ok b =>
      obtain ⟨n, hn, -⟩ := (byteCell_eq_ok_iff _).1 hcell
      exact absurd ⟨n, hn⟩ hv

/-! ## Writing -/

/-- The segment of a stored integer reads it. -/
theorem step_of_storesInteger {h' : Heap} (hc' : h'.IntegerArray c f size)
    (hs : p.segment p.lastIndex = .ok s) (hi : parseIndex s = .ok (some i)) (hlt : i < size)
    (hn : h.StoresInteger c i n h') :
    h'.step σ keys c p p.lastIndex = .done (.scalar (.int n)) := by
  rw [step, hc'.classify, stepInto, memberAt, (indexAt_eq_done hs).2 hi, Outcome.done_bind,
    hc'.length, Outcome.ofExcept, Outcome.done_bind, if_pos hlt, hc'.interruption?, if_pos hlt,
    hn.stored]
  rfl

section Writing

variable (σ : Schema) (keys : Option Deserializer) (hc : h.IntegerArray c f size)
  (hs : p.segment p.lastIndex = .ok s) (hi : parseIndex s = .ok (some i))
  (hlt : i < size)

include hc hs hi hlt

theorem put_of_integerArray : h.put σ keys c p v =
    if h.takes c v then match h.setItem c i v with
      | .ok h' => .done h'
      | .error e => if e.kind.isMismatch then h.unassignable c p v (some e.kind) else .escape e
    else h.unassignable c p v none := by
  rw [put, hc.classify, putInto, putMachine, (lastMember_eq_done hs).2 ⟨hi, size, hc.length, hlt⟩,
    Outcome.done_bind, hc.isWriteable, if_neg (by decide)]
  cases h.takes c v <;> rfl

theorem put_of_holds (hv : f.Holds v n) :
    ∃ h', h.put σ keys c p v = .done h' ∧ h'.IntegerArray c f size ∧ h.StoresInteger c i n h' := by
  obtain ⟨h', hset, hh'⟩ := setItem_of_holds hc hlt hv
  refine ⟨h', ?_, hh'⟩
  rw [put_of_integerArray σ keys hc hs hi hlt, hc.takes_of_holds hv, hset, if_pos rfl]

/-- A value that an element does not hold is a mismatch. -/
theorem put_of_not_holds (hv : ¬ ∃ n, f.Holds v n) :
    ∃ cause, h.put σ keys c p v =
      .fail ⟨.cannotAssign (h.typeName v) (h.elementName c), p, p.lastIndex, cause⟩ := by
  rw [put_of_integerArray σ keys hc hs hi hlt]
  cases htakes : h.takes c v with
  | false =>
    rw [if_neg Bool.false_ne_true]
    exact ⟨none, failAt_of_segment hs _ _⟩
  | true =>
    obtain ⟨e, he⟩ := exists_error_of_not_holds (i := i) hc htakes hv
    have hkind := mismatches_setItem (isPrimitiveArray_of_classify hc.classify) hc.length hlt e he
    rw [if_pos rfl, he]
    dsimp only
    rw [if_pos hkind]
    exact ⟨some e.kind, failAt_of_segment hs _ _⟩

end Writing

end Heap

namespace Walker

open Heap

variable (w : Walker) {σ : Schema} {h : Heap} {host c : Value} {p : Path} {s : Segment}
  {f : IntegerFormat} {size i : Nat} {j : Int}

/-- A write into an array of integers stores a value exactly if an element holds it.  Then the same
segment reads the integer that the value stands for, and nothing else has changed.  Any other value
is a mismatch, and nothing has changed.  What the walk to the array has changed on its way is no
element of it. -/
theorem writePath_integerArray (hparent : h.parentOf σ w.keys host p = .done (c, j))
    (hc : h.IntegerArray c f size) (hs : p.segment p.lastIndex = .ok s)
    (hi : parseIndex s = .ok (some i)) (hlt : i < size) (v : Value) :
    let left := h.leftByParent σ w.keys host p
    (∀ k, left.member? c k = h.member? c k) ∧
      ((w.writePath σ h host p v).result = .ok true ↔ ∃ n, f.Holds v n) ∧
      (∀ n, f.Holds v n →
        left.StoresInteger c i n (w.writePath σ h host p v).heap ∧
          (w.writePath σ h host p v).heap.length c = h.length c ∧
          (w.writePath σ h host p v).heap.step σ w.keys c p p.lastIndex =
            .done (.scalar (.int n))) ∧
      ((¬ ∃ n, f.Holds v n) →
        (∃ e, h.write σ w.keys host p v = .fail e ∧ e.code = .typeMismatch) ∧
          (w.writePath σ h host p v).heap = left) := by
  intro left
  have hadds : h.AddsDefaults (IsKeyOf w.keys) left := addsDefaults_leftByParent σ h w.keys host p
  have hleft : left.IntegerArray c f size := hc.of_addsDefaults hadds
  have hwrite : h.write σ w.keys host p v = left.put σ w.keys c p v :=
    write_of_parentOf hparent hc.isNull
  refine ⟨hc.member?_of_addsDefaults hadds, ?_⟩
  by_cases hv : ∃ n, f.Holds v n
  · obtain ⟨n, hn⟩ := hv
    obtain ⟨h', hput, hc', hstores⟩ := put_of_holds σ w.keys hleft hs hi hlt hn
    rw [w.result_writePath_of_done (hwrite.trans hput), w.heap_writePath_of_done (hwrite.trans hput)]
    refine ⟨iff_of_true rfl ⟨n, hn⟩, ?_, fun hnone => absurd ⟨n, hn⟩ hnone⟩
    intro m hm
    obtain rfl := hn.1.unique hm.1
    exact ⟨hstores, hc'.length.trans hc.length.symm,
      step_of_storesInteger hc' hs hi hlt hstores⟩
  · obtain ⟨cause, hput⟩ := put_of_not_holds σ w.keys hleft hs hi hlt hv
    have hfailed (h' : Heap) : h.write σ w.keys host p v ≠ .done h' := by
      rw [hwrite, hput]
      rintro ⟨⟩
    refine ⟨iff_of_false ?_ hv, fun n hn => absurd ⟨n, hn⟩ hv,
      fun _ => ⟨⟨_, hwrite.trans hput, rfl⟩, ?_⟩⟩
    · rw [result_writePath_eq_true]
      exact fun ⟨h', hw⟩ => hfailed h' hw
    · rw [w.heap_writePath_of_not_done hfailed, leftByWrite, hparent]
      dsimp only
      rw [hc.isNull, if_neg Bool.false_ne_true, leftByPut, hleft.classify]
      rfl

/-- The second row of a table of integers of two bytes, and an array of bytes. -/
def integerRows : Heap :=
  ⟨#[.dict .plain [(.scalar (.text "row"), .row 1 2 [2]), (.scalar (.text "bytes"), .ref 2)],
    .grid ⟨">i2", .signed, 2⟩ [2, 2] (List.replicate 4 (.scalar (.int 0))) true, .byteArray [7, 8]]⟩

/-- The least integer of two bytes is stored; the one below it is not, and no truth value is.  Among
bytes a truth value is an integer. -/
theorem writePath_integerArray_integerRows :
    (let r := writePath ⟨[], true, none⟩ {} integerRows (.ref 0) (Path.parse "row.1")
        (.scalar (.int (-32768)))
     r.result = .ok true ∧
        r.heap.step {} none (.row 1 2 [2]) (Path.parse "row.1") 1 =
          .done (.scalar (.int (-32768)))) ∧
      (∀ v, v = Scalar.int (-32769) ∨ v = .bool true →
        (writePath ⟨[], true, none⟩ {} integerRows (.ref 0) (Path.parse "row.1") (.scalar v)).heap =
          integerRows) ∧
      let r := writePath ⟨[], true, none⟩ {} integerRows (.ref 0) (Path.parse "bytes.1")
        (.scalar (.bool true))
      r.result = .ok true ∧
        r.heap.step {} none (.ref 2) (Path.parse "bytes.1") 1 = .done (.scalar (.int 1)) := by
  have hone : parseIndex (some "1") = .ok (some 1) := by cbv
  have hrow : integerRows.parentOf {} none (.ref 0) (Path.parse "row.1") =
      .done (.row 1 2 [2], 0) := by cbv
  have hbytes : integerRows.parentOf {} none (.ref 0) (Path.parse "bytes.1") =
      .done (.ref 2, 0) := by cbv
  have hwords : integerRows.IntegerArray (.row 1 2 [2]) ⟨true, 2, false⟩ 2 :=
    .row rfl rfl (by decide)
  refine ⟨?_, ?_, ?_⟩
  · have hholds : IntegerFormat.Holds ⟨true, 2, false⟩ (.scalar (.int (-32768))) (-32768) :=
      ⟨.int _, by decide⟩
    obtain ⟨-, hwritten, hreads, -⟩ := writePath_integerArray ⟨[], true, none⟩ hrow hwords (by cbv)
      hone (by decide) (.scalar (.int (-32768)))
    exact ⟨hwritten.2 ⟨_, hholds⟩, (hreads _ hholds).2.2⟩
  · intro v hv
    have hleft : integerRows.leftByParent {} none (.ref 0) (Path.parse "row.1") = integerRows := by
      cbv
    refine (((writePath_integerArray ⟨[], true, none⟩ hrow hwords (by cbv) hone (by decide)
      (.scalar v)).2.2.2 ?_).2).trans hleft
    rintro ⟨n, hn, hrange⟩
    rcases hv with rfl | rfl
    · cases hn
      exact absurd hrange (by decide)
    · obtain - | - | ⟨-, ⟨⟩⟩ := hn
  · have hholds : byteIntegers.Holds (.scalar (.bool true)) 1 := ⟨.truth true rfl, by decide⟩
    obtain ⟨-, hwritten, hreads, -⟩ := writePath_integerArray ⟨[], true, none⟩ hbytes (.bytes rfl)
      (by cbv) hone (by decide) (.scalar (.bool true))
    exact ⟨hwritten.2 ⟨_, hholds⟩, (hreads _ hholds).2.2⟩

end Walker

end Dotpath

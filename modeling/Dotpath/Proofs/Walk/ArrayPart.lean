import Dotpath.Proofs.Walk.Reasons
import Dotpath.Proofs.Walk.Refusal

/-!
# Parts of arrays

Indices lead from an array to a part of it: to one cell if there are as many as the array has
dimensions, or else to a row of fewer dimensions (`partAt?`).  A row shares the cells of its array, so
every part is given by the array, the position of its first cell and its shape (`Heap.ArrayPart`).

Each step at an index goes on to a part of the part it is taken at (`ArrayPart.step_eq`), and a walk
along indices ends at the part that they denote (`ArrayPart.walk_eq`).
-/

namespace Dotpath

/-! ## Parts of arrays -/

/-- The part of an array that indices lead to: the position of its first cell, and its shape. -/
def partAt? : (offset : Nat) → (shape : List Nat) → (indices : List Nat) → Option (Nat × List Nat)
  | offset, shape, [] => some (offset, shape)
  | offset, n :: inner, i :: is =>
    if i < n then partAt? (offset + i * cellCount inner) inner is else none
  | _, [], _ :: _ => none

@[simp] theorem partAt?_nil (offset : Nat) (shape : List Nat) :
    partAt? offset shape [] = some (offset, shape) := by
  rw [partAt?]

theorem partAt?_cons_eq_some {offset i o : Nat} {shape is rest : List Nat}
    (hpart : partAt? offset shape (i :: is) = some (o, rest)) :
    ∃ n inner, shape = n :: inner ∧ i < n ∧
      partAt? (offset + i * cellCount inner) inner is = some (o, rest) := by
  cases shape with
  | nil => cases hpart
  | cons n inner =>
    rw [partAt?] at hpart
    split at hpart
    · next hi => exact ⟨n, inner, rfl, hi, hpart⟩
    · cases hpart

/-- The last index leads on from the part to which those before it lead. -/
theorem partAt?_append_singleton {offset i o : Nat} {shape is rest : List Nat}
    (hpart : partAt? offset shape (is ++ [i]) = some (o, rest)) :
    ∃ o' n, partAt? offset shape is = some (o', n :: rest) ∧ i < n ∧
      o = o' + i * cellCount rest := by
  induction is generalizing offset shape with
  | nil =>
    obtain ⟨n, inner, rfl, hi, hlast⟩ := partAt?_cons_eq_some hpart
    rw [partAt?_nil] at hlast
    cases hlast
    exact ⟨offset, n, partAt?_nil _ _, hi, rfl⟩
  | cons j is ih =>
    obtain ⟨n, inner, rfl, hj, hrest⟩ := partAt?_cons_eq_some hpart
    rw [partAt?, if_pos hj]
    exact ih hrest

/-- Whether the segments of a path, from one on, denote these indices. -/
def Path.Indices (p : Path) (k : Nat) (is : List Nat) : Prop :=
  List.Forall₂ (fun s i => parseIndex s = .ok (some i)) (p.segments.drop k) is

namespace Path.Indices

variable {p : Path} {k i : Nat} {is : List Nat}

theorem size_le (hp : p.Indices k []) : p.size ≤ k :=
  List.drop_eq_nil_iff.1 (List.forall₂_nil_right_iff.1 hp)

/-- The first index is denoted by the segment there, and the others by the segments after it. -/
theorem cons (hp : p.Indices k (i :: is)) :
    (∃ s, p.segment k = .ok s ∧ parseIndex s = .ok (some i)) ∧ p.Indices (k + 1) is := by
  obtain ⟨s, ss, hparse, his, hdrop⟩ := List.forall₂_cons_right_iff.1 hp
  have hget : p.segments[k]? = some s := by
    rw [← List.head?_drop, hdrop]
    rfl
  refine ⟨⟨s, segment_of_getElem? hget, hparse⟩, ?_⟩
  rwa [Indices, ← List.tail_drop, hdrop]

theorem lt_size (hp : p.Indices k (i :: is)) : k < p.size := by
  obtain ⟨s, ss, -, -, hdrop⟩ := List.forall₂_cons_right_iff.1 hp
  by_contra hle
  rw [List.drop_eq_nil_of_le (Nat.le_of_not_lt hle)] at hdrop
  cases hdrop

/-- The last index is denoted by the last segment, and the others by the path before it. -/
theorem append_singleton (hp : p.Indices 0 (is ++ [i])) :
    (∃ s, p.segment p.lastIndex = .ok s ∧ parseIndex s = .ok (some i)) ∧
      ∃ q, p.parent? = some q ∧ p.size = is.length + 1 ∧ q.Indices 0 is := by
  have hsize : p.size = is.length + 1 := by
    have hlength := List.Forall₂.length_eq hp
    rwa [List.drop_zero, List.length_append] at hlength
  have hlast : p.Indices is.length [i] := by
    have hdrop := List.forall₂_drop is.length hp
    rwa [List.drop_zero, List.drop_left] at hdrop
  constructor
  · have hindex : p.lastIndex = is.length := by
      rw [lastIndex, hsize]
      omega
    rw [hindex]
    exact hlast.cons.1
  · refine ⟨p.initial is.length, ?_, hsize, ?_⟩
    · rw [parent?_eq_initial (by omega), hsize, Nat.add_sub_cancel]
    · rw [Indices, initial, segments_ofSegments, List.drop_zero]
      have htake := List.forall₂_take is.length hp
      rwa [List.drop_zero, List.take_left] at htake

end Path.Indices

namespace Heap

variable {σ : Schema} {h : Heap} {keys : Option Deserializer} {p : Path} {c : Value} {s : Segment}
  {t : ElementType} {a : Address} {offset i k n o : Nat} {shape inner is rest : List Nat}

/-- Whether a value is an array that can be changed, or a part of one, with the address of the array,
the position of the first cell, and the shape. -/
inductive ArrayPart (h : Heap) : Value → Address → ElementType → Nat → List Nat → Prop
  | whole {a : Address} {t : ElementType} {shape : List Nat} {cells : List Value}
      (ha : h.get? a = some (.grid t shape cells true))
      (hcells : 0 + cellCount shape ≤ cells.length) : ArrayPart h (.ref a) a t 0 shape
  | row {a : Address} {t : ElementType} {offset : Nat} {shape whole : List Nat} {cells : List Value}
      (ha : h.get? a = some (.grid t whole cells true))
      (hcells : offset + cellCount shape ≤ cells.length) :
      ArrayPart h (.row a offset shape) a t offset shape

/-- The value that is read where indices lead to: the element in a cell, or a row. -/
def partValue (h : Heap) (a : Address) (offset : Nat) : (shape : List Nat) → Value
  | [] => plainElement ((h.gridCells a).getD offset (.scalar .null))
  | shape => .row a offset shape

namespace ArrayPart

theorem exists_cells (hc : h.ArrayPart c a t offset shape) :
    ∃ whole cells, h.get? a = some (.grid t whole cells true) ∧
      offset + cellCount shape ≤ cells.length := by
  cases hc with
  | whole ha hcells | row ha hcells => exact ⟨_, _, ha, hcells⟩

theorem grid? (hc : h.ArrayPart c a t offset shape) : h.grid? c = some (t, shape) := by
  cases hc with
  | whole ha | row ha => rw [Heap.grid?, ha]

theorem storage? (hc : h.ArrayPart c a t offset shape) : h.storage? c = some a := by
  cases hc with
  | whole ha => rw [Heap.storage?, storageWith, ha]
  | row => rfl

theorem isNull (hc : h.ArrayPart c a t offset shape) : c.isNull = false := by
  cases hc with
  | whole | row => rfl

theorem isWriteable (hc : h.ArrayPart c a t offset shape) : h.isWriteable c = true := by
  cases hc with
  | whole ha | row ha => rw [Heap.isWriteable, ha]

theorem length (hc : h.ArrayPart c a t offset (n :: inner)) : h.length c = .ok n := by
  cases hc with
  | whole ha => rw [Heap.length, ha]; rfl
  | row => rfl

theorem member? (hc : h.ArrayPart c a t offset shape) (i : Nat) :
    h.member? c i = gridMember a offset shape (h.gridCells a) i := by
  cases hc with
  | whole ha => rw [Heap.member?, gridCells, ha]
  | row => rfl

theorem setItem (hc : h.ArrayPart c a t offset shape) (i : Nat) (v : Value) :
    h.setItem c i v = h.storeMember a offset shape i v := by
  cases hc with
  | whole ha => rw [Heap.setItem, ha]
  | row => rfl

theorem classify (hc : h.ArrayPart c a t offset (n :: inner)) :
    h.classify c = if t.isReference then .array else .primitiveArray := by
  have hgrid := hc.grid?
  have hsequence : h.isSequence c = false := by
    cases hc with
    | whole ha => rw [isSequence, ha]
    | row => rfl
  have hmapping : h.isMapping c = false := by
    cases hc with
    | whole ha => rw [isMapping, ha]
    | row => rfl
  cases href : t.isReference <;>
    simp [Heap.classify, isArray, isPrimitiveArray, hsequence, hmapping, hgrid, href]

/-- Nothing interrupts the run through an array. -/
theorem interruption? (hc : h.ArrayPart c a t offset shape) (i : Nat) : h.interruption? c i = none := by
  cases hc with
  | whole ha => rw [Heap.interruption?, ha]
  | row => rfl

/-- A step into an array leaves the heap. -/
theorem leftByStep (keys : Option Deserializer) (hc : h.ArrayPart c a t offset (n :: inner))
    (p : Path) (k : Int) : h.leftByStep keys c p k = h := by
  rw [Heap.leftByStep, hc.classify]
  cases t.isReference <;> rfl

/-- Added defaults leave an array. -/
theorem of_addsDefaults {h' : Heap} {K : Value → Prop} (hadds : h.AddsDefaults K h')
    (hc : h.ArrayPart c a t offset shape) : h'.ArrayPart c a t offset shape := by
  cases hc with
  | whole ha hcells => exact .whole (hadds.get? ha (by rintro _ ⟨⟩)) hcells
  | row ha hcells => exact .row (hadds.get? ha (by rintro _ ⟨⟩)) hcells

theorem member?_of_addsDefaults {h' : Heap} {K : Value → Prop} (hadds : h.AddsDefaults K h')
    (hc : h.ArrayPart c a t offset shape) (i : Nat) : h'.member? c i = h.member? c i := by
  obtain ⟨whole, cells, ha, -⟩ := hc.exists_cells
  rw [(hc.of_addsDefaults hadds).member?, hc.member?, gridCells, gridCells, ha,
    hadds.get? ha (by rintro _ ⟨⟩)]

/-- A row at an index of a part is a part of the same array. -/
theorem at_index (hc : h.ArrayPart c a t offset (n :: inner)) (hi : i < n) :
    h.ArrayPart (.row a (offset + i * cellCount inner) inner) a t (offset + i * cellCount inner)
      inner := by
  obtain ⟨whole, cells, ha, hlen⟩ := hc.exists_cells
  apply ArrayPart.row ha
  have hle : (i + 1) * cellCount inner ≤ n * cellCount inner := Nat.mul_le_mul_right _ hi
  rw [Nat.succ_mul] at hle
  rw [cellCount] at hlen
  omega

/-- Indices lead to a part of the same array. -/
theorem of_partAt? (hc : h.ArrayPart c a t offset shape)
    (hpart : partAt? offset shape is = some (o, rest)) : h.ArrayPart (.row a o rest) a t o rest := by
  induction is generalizing c offset shape with
  | nil =>
    rw [partAt?_nil] at hpart
    cases hpart
    obtain ⟨whole, cells, ha, hlen⟩ := hc.exists_cells
    exact .row ha hlen
  | cons i is ih =>
    obtain ⟨n, inner, rfl, hi, hpart⟩ := partAt?_cons_eq_some hpart
    exact ih (hc.at_index hi) hpart

/-! ## Steps -/

theorem gridMember_eq (hc : h.ArrayPart c a t offset (n :: inner)) (hi : i < n) :
    ∃ x, gridMember a offset (n :: inner) (h.gridCells a) i = some x ∧
      plainElement x = h.partValue a (offset + i * cellCount inner) inner := by
  cases inner with
  | nil =>
    obtain ⟨whole, cells, ha, hlen⟩ := hc.exists_cells
    have hcells : h.gridCells a = cells := by rw [gridCells, ha]
    have hlt : offset + i < cells.length := by
      simp only [cellCount, Nat.mul_one] at hlen
      omega
    refine ⟨cells[offset + i], ?_, ?_⟩
    · rw [gridMember, if_pos hi, hcells]
      exact List.getElem?_eq_getElem hlt
    · rw [partValue, hcells, cellCount, Nat.mul_one, List.getD_eq_getElem _ _ hlt]
  | cons m inner => exact ⟨_, if_pos hi, rfl⟩

theorem step_eq (hc : h.ArrayPart c a t offset (n :: inner)) {k : Int} (hs : p.segment k = .ok s)
    (hparse : parseIndex s = .ok (some i)) (hi : i < n) :
    h.step σ keys c p k = .done (h.partValue a (offset + i * cellCount inner) inner) := by
  obtain ⟨x, hx, hplain⟩ := hc.gridMember_eq hi
  have hmember : h.memberAt c p k = .done x := by
    rw [memberAt, (indexAt_eq_done hs).2 hparse, Outcome.done_bind, hc.length, Outcome.ofExcept,
      Outcome.done_bind, if_pos hi, hc.interruption?, if_pos hi, hc.member?, hx]
    rfl
  rw [step, hc.classify, ← hplain]
  cases t.isReference <;>
    · dsimp only [stepInto]
      rw [hmember]
      rfl

/-- Indices lead a walk from a part of an array to the part that they denote. -/
theorem walk_eq (σ : Schema) (keys : Option Deserializer) (hc : h.ArrayPart c a t offset shape)
    (hp : p.Indices k (i :: is)) (hpart : partAt? offset shape (i :: is) = some (o, rest)) :
    h.walk σ keys c p k = .done (h.partValue a o rest) := by
  induction is generalizing c offset shape k i with
  | nil =>
    obtain ⟨n, inner, rfl, hi, hpart⟩ := partAt?_cons_eq_some hpart
    obtain ⟨⟨s, hs, hparse⟩, hend⟩ := hp.cons
    have hle : (p.size : Int) ≤ k + 1 := by exact_mod_cast hend.size_le
    rw [partAt?_nil] at hpart
    cases hpart
    rw [walk_of_lt (Int.ofNat_lt.2 hp.lt_size) hc.isNull, hc.step_eq hs hparse hi,
      Outcome.done_bind, walk_of_le hle]
  | cons j is ih =>
    obtain ⟨n, inner, rfl, hi, hpart⟩ := partAt?_cons_eq_some hpart
    obtain ⟨⟨s, hs, hparse⟩, his⟩ := hp.cons
    obtain ⟨m, inner, rfl, -, -⟩ := partAt?_cons_eq_some hpart
    rw [walk_of_lt (Int.ofNat_lt.2 hp.lt_size) hc.isNull, hc.step_eq hs hparse hi,
      Outcome.done_bind, hc.leftByStep]
    exact ih (hc.at_index hi) his hpart

/-- A walk along indices leaves the heap. -/
theorem leftByWalk (σ : Schema) (keys : Option Deserializer) (hc : h.ArrayPart c a t offset shape)
    (hp : p.Indices k (i :: is)) (hpart : partAt? offset shape (i :: is) = some (o, rest)) :
    h.leftByWalk σ keys c p k = h := by
  induction is generalizing c offset shape k i with
  | nil =>
    obtain ⟨n, inner, rfl, hi, -⟩ := partAt?_cons_eq_some hpart
    obtain ⟨⟨s, hs, hparse⟩, hend⟩ := hp.cons
    have hle : (p.size : Int) ≤ k + 1 := by exact_mod_cast hend.size_le
    rw [leftByWalk_of_done (Int.ofNat_lt.2 hp.lt_size) hc.isNull (hc.step_eq hs hparse hi),
      hc.leftByStep, leftByWalk_of_le hle]
  | cons j is ih =>
    obtain ⟨n, inner, rfl, hi, hpart⟩ := partAt?_cons_eq_some hpart
    obtain ⟨⟨s, hs, hparse⟩, his⟩ := hp.cons
    obtain ⟨m, inner, rfl, -, -⟩ := partAt?_cons_eq_some hpart
    rw [leftByWalk_of_done (Int.ofNat_lt.2 hp.lt_size) hc.isNull (hc.step_eq hs hparse hi),
      hc.leftByStep]
    exact ih (hc.at_index hi) his hpart

/-- The last of several indices denotes a member of the part to which the others lead. -/
theorem exists_parent (σ : Schema) (keys : Option Deserializer)
    (hc : h.ArrayPart c a t offset shape) (hp : p.Indices 0 (is ++ [i]))
    (hpart : partAt? offset shape (is ++ [i]) = some (o, rest)) :
    ∃ d j o' n, h.parentOf σ keys c p = .done (d, j) ∧ h.leftByParent σ keys c p = h ∧
      h.ArrayPart d a t o' (n :: rest) ∧ i < n ∧ o = o' + i * cellCount rest := by
  obtain ⟨o', n, hparent, hi, ho⟩ := partAt?_append_singleton hpart
  obtain ⟨-, q, hq, hsize, his⟩ := hp.append_singleton
  rw [parentOf, leftByParent, hq]
  dsimp only
  cases is with
  | nil =>
    rw [partAt?_nil] at hparent
    cases hparent
    exact ⟨c, 0, offset, n, if_pos hsize, if_pos hsize, hc, hi, ho⟩
  | cons k is =>
    have hwalk := hc.walk_eq σ keys his hparent
    have hleft := hc.leftByWalk σ keys his hparent
    have hd : h.ArrayPart (.row a o' (n :: rest)) a t o' (n :: rest) := hc.of_partAt? hparent
    refine ⟨.row a o' (n :: rest), q.lastIndex, o', n, ?_, ?_, hd, hi, ho⟩ <;>
      rw [List.length_cons] at hsize
    · rw [Int.natCast_zero] at hwalk
      rw [if_neg (by omega), hwalk]
      rfl
    · rw [if_neg (by omega)]
      exact hleft

end ArrayPart

end Heap

end Dotpath

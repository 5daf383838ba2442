import Dotpath.Proofs.Array.Mismatch
import Dotpath.Proofs.Walk.LetOut
import Dotpath.Proofs.Walk.OneSlot

/-!
# What an assignment lets out

A container whose assignment is refused lets the fault out unless it is of one of the kinds that
writers catch, and a sequence may have fewer members than it says.  Only sequences of the user do
either, and mappings that pass the assignment on to one which refuses; built-in containers and arrays
take a value or refuse it in a way that is caught.  An assignment to a property
lets a fault out where its failure cannot be worded, in the heap that a setter has left
(`UnwordedPut`).  `PutFaults` lists these faults, and `put_eq_escape` says that there are no others
along short segments.
-/

namespace Dotpath

namespace Path

variable {p : Path}

end Path

namespace Heap

variable {σ : Schema} {h : Heap} {p : Path} {i : Int} {s : Segment} {c v : Value} {f : Fault}
  {n size : Nat}

/-- Whether the failure that the fault of an assignment to a property leads to cannot be worded in the
heap that the assignment has left, with the fault that comes up instead. -/
inductive UnwordedPut (σ : Schema) (h h' : Heap) (c : Value) (e : Fault) : Fault → Prop
  /-- The message would show an object without properties.  Its class has its own way of showing it,
  unless a setter has stored something that cannot be shown. -/
  | unshown {f : Fault} (hkind : e.kind = .noAccessibleProperties)
      (hown : h' = h → h.ShowsItself σ c) (hformat : h'.format σ c = .error f) :
      UnwordedPut σ h h' c e f
  /-- The message would repeat that of the fault. -/
  | untold (hkind : e.kind = .illegalAssignment) (hmessage : e.message? = none) :
      UnwordedPut σ h h' c e .unprintableInteger
  /-- The message would show the fault. -/
  | unquoted (hkind : e.kind ≠ .noAccessibleProperties) (hname : e.kind ≠ .noSuchProperty)
      (hillegal : e.kind ≠ .illegalAssignment) (hshown : ¬ e.IsShown) :
      UnwordedPut σ h h' c e .unprintableInteger

/-- How an assignment of a value at a segment can end in a fault that a write lets out. -/
inductive PutFaults (σ : Schema) (h : Heap) (s : Segment) (v : Value) : Value → Fault → Prop
  /-- A sequence refuses the assignment in its own way. -/
  | refusedItem {a : Address} {items : List Value} {claimed : Option Int} {kind : FaultKind}
      {break? : Option (Nat × Fault)} {n size : Nat}
      (hget : h.get? a = some (.userSeq items claimed (some kind) break?))
      (hn : parseIndex s = .ok (some n)) (hsize : h.length (.ref a) = .ok size) (hlt : n < size)
      (hkind : kind.isRefusal = false) : PutFaults σ h s v (.ref a) (.refused kind)
  /-- A sequence has fewer members than it says. -/
  | missingItem {a : Address} {items : List Value} {claimed : Option Int}
      {break? : Option (Nat × Fault)} {n size : Nat}
      (hget : h.get? a = some (.userSeq items claimed none break?))
      (hn : parseIndex s = .ok (some n)) (hsize : h.length (.ref a) = .ok size) (hlt : n < size)
      (hshort : items.length ≤ n) : PutFaults σ h s v (.ref a) .listIndex
  /-- A mapping refuses the assignment in its own way. -/
  | refusedKey {c : Value} {f : Fault} (hkind : h.classify c = .mapping)
      (hset : h.setKey c (segmentKey s) v = .error f) (hopen : f.kind.isRefusal = false) :
      PutFaults σ h s v c f
  /-- The failure to assign the property cannot be worded. -/
  | unworded {c : Value} {name : String} {e f : Fault} {h' : Heap} (hkind : h.classify c = .object)
      (hs : s = some name) (hname : name ≠ "")
      (hwrite : h.writeProperty σ c (some name) v = .error (e, h'))
      (hword : UnwordedPut σ h h' c e f) : PutFaults σ h s v c f

/-! ## Writers -/

theorem lastMember_eq_done (hs : p.segment p.lastIndex = .ok s) {n : Nat} :
    h.lastMember c p = .done n ↔
      parseIndex s = .ok (some n) ∧ ∃ size, h.length c = .ok size ∧ n < size := by
  constructor
  · intro hn
    exact ⟨(indexAt_eq_done hs).1 (indexAt_of_lastMember hn), lt_of_lastMember hn⟩
  · rintro ⟨hparse, size, hsize, hlt⟩
    rw [lastMember, (indexAt_eq_done hs).2 hparse, Outcome.done_bind, hsize, Outcome.ofExcept,
      Outcome.done_bind, if_pos hlt]
    rfl

theorem classify_of_isSequence (hkind : h.isSequence c = true) : h.classify c = .sequence :=
  if_pos hkind

theorem classify_userSeq {a : Address} {items : List Value} {claimed : Option Int}
    {refusal : Option FaultKind} {break? : Option (Nat × Fault)}
    (hget : h.get? a = some (.userSeq items claimed refusal break?)) :
    h.classify (.ref a) = .sequence :=
  classify_of_isSequence (by rw [isSequence, hget])

theorem isPrimitiveArray_of_classify (hkind : h.classify c = .primitiveArray) :
    h.isPrimitiveArray c = true := by
  unfold classify at hkind
  split_ifs at hkind with h₁ h₂ h₃ h₄
  exact h₄

/-- Assigning to a member of an array stores into its cells. -/
theorem setItem_of_grid? {t : ElementType} {shape : List Nat} (hgrid : h.grid? c = some (t, shape))
    (n : Nat) (v : Value) :
    ∃ a offset whole cells writeable, h.get? a = some (.grid t whole cells writeable) ∧
      h.setItem c n v = h.storeMember a offset shape n v := by
  unfold grid? at hgrid
  split at hgrid
  · next a =>
    split at hgrid
    · next hget =>
      cases hgrid
      refine ⟨a, 0, _, _, _, hget, ?_⟩
      rw [setItem, hget]
    · cases hgrid
  · next a offset shape =>
    split at hgrid
    · next hget =>
      cases hgrid
      exact ⟨a, offset, _, _, _, hget, rfl⟩
    · cases hgrid
  · cases hgrid

/-- An array of machine values takes a value or refuses it as a mismatch. -/
theorem mismatches_setItem (hkind : h.isPrimitiveArray c = true) (hsize : h.length c = .ok size)
    (hlt : n < size) : Mismatches (h.setItem c n v) := by
  unfold isPrimitiveArray at hkind
  split at hkind
  · next t shape hgrid =>
    obtain ⟨a, offset, whole, cells, writeable, -, hset⟩ := setItem_of_grid? hgrid n v
    rw [hset]
    exact mismatches_storeMember
  · split at hkind
    · next a =>
      split at hkind
      · next bs hget =>
        have hin : n < bs.length := by
          rw [length, hget] at hsize
          cases hsize
          simpa [nodeMembers] using hlt
        rw [setItem, hget]
        refine .bind (mismatches_byteCell _ _) fun b => ?_
        rw [if_pos hin]
        exact .ok _
      · next code items hget =>
        have hin : n < items.length := by
          rw [length, hget] at hsize
          cases hsize
          simpa [nodeMembers] using hlt
        rw [setItem, hget]
        refine .bind (mismatches_plainCell _ _ _) fun x => ?_
        rw [if_pos hin]
        exact .ok _
      · cases hkind
    · cases hkind

/-- Arrays make no assignment let a fault out. -/
theorem PutFaults.kind (hc : h.PutFaults σ s v c f) :
    h.classify c ≠ .array ∧ h.classify c ≠ .primitiveArray := by
  rcases hc with ⟨hget, -, -, -, -⟩ | ⟨hget, -, -, -, -⟩ | ⟨hmapping, -, -⟩ | ⟨hobject, -, -, -, -⟩
  · simp [classify_userSeq hget]
  · simp [classify_userSeq hget]
  · simp [hmapping]
  · simp [hobject]

theorem isNull_of_object? {o : Address × String × List (String × Value)}
    (hobject : h.object? c = some o) : c.isNull = false := by
  unfold object? at hobject
  split at hobject
  · rfl
  · cases hobject

theorem PutFaults.isNull (hc : h.PutFaults σ s v c f) : c.isNull = false := by
  rcases hc with ⟨-, -, -, -, -⟩ | ⟨-, -, -, -, -⟩ | ⟨hmapping, -, -⟩ | ⟨-, -, -, hwrite, hword⟩
  · rfl
  · rfl
  · cases c with
    | scalar x =>
      cases x with
      | null => cases isMapping_of_classify hmapping
      | _ => rfl
    | _ => rfl
  · cases hobject : h.object? c with
    | none =>
      rw [writeProperty_of_not_object hobject] at hwrite
      cases hwrite
      rcases hword with ⟨-, hown, -⟩ | ⟨hkind, -⟩ | ⟨hkind, -, -, -⟩
      · obtain ⟨a, type, attrs, hsome, -⟩ := hown rfl
        cases hobject.symm.trans hsome
      · cases hkind
      · exact absurd rfl hkind
    | some o => exact isNull_of_object? hobject

end Heap

end Dotpath

import Dotpath.Proofs.Walk.Key
import Dotpath.Walk.Reading

/-!
# Steps on different paths

A step looks at one segment of its path.  Where two paths have the same segment, possibly at
different indices, a step takes the same course on both: it finds the same value, fails with the
same problem and cause, or lets the same fault through (`step_readdress`), and it leaves the same heap
(`leftByStep_readdress`).  Only the address of a failure differs, and `Outcome.readdress` changes it
from one path to the other.

A key deserializer takes part in this if it looks at nothing but the segment it is given
(`SegmentOnly`).
-/

namespace Dotpath

namespace Outcome

/-- The outcome with its failure addressed to another path, `k` segments further on. -/
def readdress {α : Type} (path : Path) (k : Int) : Outcome α → Outcome α
  | done a => done a
  | fail f => fail { f with path := path, segment := f.segment + k }
  | escape f => escape f

variable {α β : Type} (path : Path) (k : Int)

@[simp] theorem readdress_done (a : α) : (done a).readdress path k = done a := rfl

@[simp] theorem readdress_escape (f : Fault) :
    (escape f : Outcome α).readdress path k = escape f := rfl

@[simp] theorem readdress_ofExcept (r : Except Fault α) :
    (ofExcept r).readdress path k = ofExcept r := by
  cases r <;> rfl

theorem readdress_bind (x : Outcome α) (f : α → Outcome β) :
    (x >>= f).readdress path k = x.readdress path k >>= fun a => (f a).readdress path k := by
  cases x <;> rfl

@[simp] theorem done_bind (a : α) (f : α → Outcome β) : (done a >>= f) = f a := rfl

@[simp] theorem fail_bind (e : Failure) (f : α → Outcome β) : (fail e >>= f) = fail e := rfl

@[simp] theorem escape_bind (e : Fault) (f : α → Outcome β) : (escape e >>= f) = escape e := rfl

theorem bind_congr {x : Outcome α} {f g : α → Outcome β} (h : ∀ a, f a = g a) :
    (x >>= f) = x >>= g := by
  rw [funext h]

end Outcome

/-! ## One step -/

section Step

variable {p q : Path} {i k : Int} {s : Segment}

theorem failAt_of_segment {α : Type} (hp : p.segment i = .ok s) (problem : Problem)
    (cause : Option FaultKind) :
    failAt problem p i cause = (.fail ⟨problem, p, i, cause⟩ : Outcome α) := by
  unfold failAt Failure.at?
  cases problem.namesSegment
  · rfl
  · rw [hp]
    rfl

theorem failAt_readdress {α : Type} (hp : p.segment i = .ok s) (hq : q.segment (i + k) = .ok s)
    (problem : Problem) (cause : Option FaultKind) :
    failAt problem q (i + k) cause = (failAt problem p i cause : Outcome α).readdress q k := by
  rw [failAt_of_segment hp, failAt_of_segment hq]
  rfl

theorem indexAt_readdress (hp : p.segment i = .ok s) (hq : q.segment (i + k) = .ok s) :
    indexAt q (i + k) = (indexAt p i).readdress q k := by
  rw [indexAt, indexAt, Outcome.readdress_bind, hp, hq, Outcome.readdress_ofExcept]
  refine Outcome.bind_congr fun n => ?_
  cases n with
  | some n => rfl
  | none => exact failAt_readdress hp hq _ _

theorem mapKey_readdress {keys : Option Deserializer} (hkeys : SegmentOnly keys)
    (hp : p.segment i = .ok s) (hq : q.segment (i + k) = .ok s) :
    mapKey keys q (i + k) = (mapKey keys p i).readdress q k := by
  cases keys with
  | none =>
    rw [mapKey, mapKey, hp, hq]
    rfl
  | some d =>
    rw [mapKey, mapKey, hkeys d rfl hp hq]
    cases d q (i + k) with
    | key => rfl
    | unhashable => exact failAt_readdress hp hq _ _
    | rejected => exact failAt_readdress hp hq _ _
    | raised f =>
      dsimp only
      split
      · exact failAt_readdress hp hq _ _
      · rfl

namespace Heap

variable {σ : Schema} {h : Heap}

theorem nameAt_readdress (hp : p.segment i = .ok s) (hq : q.segment (i + k) = .ok s) :
    nameAt q (i + k) = (nameAt p i).readdress q k := by
  rw [nameAt, nameAt, Outcome.readdress_bind, hp, hq, Outcome.readdress_ofExcept]
  refine Outcome.bind_congr fun name => ?_
  cases name with
  | some name =>
    by_cases hname : name.isEmpty
    · simpa only [hname, if_true] using failAt_readdress hp hq _ _
    · simp only [hname]
      rfl
  | none => exact failAt_readdress hp hq _ _

theorem memberAt_readdress (hp : p.segment i = .ok s) (hq : q.segment (i + k) = .ok s)
    (v : Value) : h.memberAt v q (i + k) = (h.memberAt v p i).readdress q k := by
  rw [memberAt, memberAt, indexAt_readdress hp hq, Outcome.readdress_bind]
  refine Outcome.bind_congr fun n => ?_
  rw [Outcome.readdress_bind, Outcome.readdress_ofExcept]
  refine Outcome.bind_congr fun size => ?_
  cases (if n < size then h.interruption? v n else none) with
  | some f => rfl
  | none =>
    cases (if n < size then h.member? v n else none) with
    | some w => rfl
    | none => exact failAt_readdress hp hq _ _

theorem entryAt_readdress {keys : Option Deserializer} (hkeys : SegmentOnly keys)
    (hp : p.segment i = .ok s) (hq : q.segment (i + k) = .ok s) (v : Value) :
    h.entryAt keys v q (i + k) = (h.entryAt keys v p i).readdress q k := by
  rw [entryAt, entryAt, mapKey_readdress hkeys hp hq, Outcome.readdress_bind]
  refine Outcome.bind_congr fun key => ?_
  rw [Outcome.readdress_bind, Outcome.readdress_ofExcept]
  refine Outcome.bind_congr fun found => ?_
  cases found with
  | some w => rfl
  | none => exact failAt_readdress hp hq _ _

theorem leftByEntry_readdress {keys : Option Deserializer} (hkeys : SegmentOnly keys)
    (hp : p.segment i = .ok s) (hq : q.segment (i + k) = .ok s) (v : Value) :
    h.leftByEntry keys v q (i + k) = h.leftByEntry keys v p i := by
  rw [leftByEntry, leftByEntry, mapKey_readdress hkeys hp hq]
  cases mapKey keys p i <;> rfl

theorem terminalAt_readdress {α : Type} (hp : p.segment i = .ok s)
    (hq : q.segment (i + k) = .ok s) (v : Value) :
    h.terminalAt σ v q (i + k) = (h.terminalAt σ v p i : Outcome α).readdress q k := by
  rw [terminalAt, terminalAt, Outcome.readdress_bind, Outcome.readdress_ofExcept]
  exact Outcome.bind_congr fun shown => failAt_readdress hp hq _ _

theorem propertyFault_readdress {α : Type} (hp : p.segment i = .ok s)
    (hq : q.segment (i + k) = .ok s) (v : Value) (f : Fault) :
    h.propertyFault σ v q (i + k) f = (h.propertyFault σ v p i f : Outcome α).readdress q k := by
  unfold propertyFault
  split
  · exact terminalAt_readdress hp hq v
  · exact failAt_readdress hp hq _ _
  · cases f.quoted? with
    | some shown => exact failAt_readdress hp hq _ _
    | none => rfl

theorem propertyAt_readdress (hp : p.segment i = .ok s) (hq : q.segment (i + k) = .ok s)
    (v : Value) : h.propertyAt σ v q (i + k) = (h.propertyAt σ v p i).readdress q k := by
  rw [propertyAt, propertyAt, nameAt_readdress hp hq, Outcome.readdress_bind]
  refine Outcome.bind_congr fun name => ?_
  cases h.readProperty σ v (some name) with
  | ok w => rfl
  | error f => exact propertyFault_readdress hp hq v f

/-- A step takes the same course on every path that has the same segment there. -/
theorem step_readdress {keys : Option Deserializer} (hkeys : SegmentOnly keys)
    (hp : p.segment i = .ok s) (hq : q.segment (i + k) = .ok s) (v : Value) :
    h.step σ keys v q (i + k) = (h.step σ keys v p i).readdress q k := by
  unfold step stepInto
  cases h.classify v with
  | sequence => exact memberAt_readdress hp hq v
  | array | primitiveArray =>
    simp only [memberAt_readdress hp hq v]
    rw [Outcome.readdress_bind]
    rfl
  | mapping => exact entryAt_readdress hkeys hp hq v
  | object => exact propertyAt_readdress hp hq v

/-- And it leaves the same heap. -/
theorem leftByStep_readdress {keys : Option Deserializer} (hkeys : SegmentOnly keys)
    (hp : p.segment i = .ok s) (hq : q.segment (i + k) = .ok s) (v : Value) :
    h.leftByStep keys v q (i + k) = h.leftByStep keys v p i := by
  unfold leftByStep leftByStepInto
  cases h.classify v with
  | mapping => exact leftByEntry_readdress hkeys hp hq v
  | sequence | array | primitiveArray | object => rfl

end Heap

end Step

end Dotpath

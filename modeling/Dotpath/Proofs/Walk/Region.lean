import Dotpath.Proofs.Graph.RegionLookup
import Dotpath.Proofs.Graph.RegionText
import Dotpath.Proofs.Walk.Trail
import Dotpath.Walk.Walker

/-!
# Walks within a region

A walk that starts in a region which mentions nothing outside of itself stays there, and the defaults
that it adds come to lie there too.  So it takes the same course in two heaps that are the same within
the region, and leaves them the same (`SameWithin.walk`).  A node outside of the region changes
nothing about a read, and is not changed by it (`readPath_set`).
-/

namespace Dotpath

namespace Heap

namespace SameWithin

variable {σ : Schema} {S : Address → Prop} {h h' : Heap} {keys : Option Deserializer} {v : Value}

/-! ## Steps -/

theorem memberAt (hS : SameWithin σ S h h') (hv : v.LiesIn S) (p : Path) (i : Int) :
    h'.memberAt v p i = h.memberAt v p i := by
  have hmember : h'.member? v = h.member? v := funext (hS.member? hv)
  have hrun : h'.interruption? v = h.interruption? v := funext (hS.interruption? hv)
  rw [Heap.memberAt, Heap.memberAt, hS.length hv, hmember, hrun]

/-- A step into a mapping. -/
theorem entryAt (hS : SameWithin σ S h h') (hnew : h.Takes S (IsKeyOf keys)) (hv : v.LiesIn S)
    (p : Path) (i : Int) :
    Alike σ S (IsKeyOf keys) h h' (h.entryAt keys v p i, h.leftByEntry keys v p i)
      (h'.entryAt keys v p i, h'.leftByEntry keys v p i) := by
  rw [Heap.entryAt, Heap.entryAt, leftByEntry, leftByEntry]
  cases hk : mapKey keys p i with
  | done k =>
    have hlook := hS.lookUp hnew hv ⟨p, i, hk⟩
    refine ⟨?_, hlook.heaps, hlook.changes, hlook.takes⟩
    dsimp only
    rw [Outcome.done_bind, Outcome.done_bind, hlook.result]
  | fail f | escape f => exact .of_same hS hnew _

theorem terminalAt {α : Type} (hS : SameWithin σ S h h') (hv : v.LiesIn S) (p : Path) (i : Int) :
    (h'.terminalAt σ v p i : Outcome α) = h.terminalAt σ v p i := by
  rw [Heap.terminalAt, Heap.terminalAt, hS.format hv, hS.typeName hv]

theorem propertyFault {α : Type} (hS : SameWithin σ S h h') (hv : v.LiesIn S) (p : Path) (i : Int)
    (f : Fault) : (h'.propertyFault σ v p i f : Outcome α) = h.propertyFault σ v p i f := by
  unfold Heap.propertyFault
  rw [hS.terminalAt hv, hS.typeName hv]

theorem propertyAt (hS : SameWithin σ S h h') (hv : v.LiesIn S) (p : Path) (i : Int) :
    h'.propertyAt σ v p i = h.propertyAt σ v p i := by
  rw [Heap.propertyAt, Heap.propertyAt]
  refine Outcome.bind_congr fun name => ?_
  rw [hS.readProperty hv]
  cases h.readProperty σ v (some name) with
  | ok w => rfl
  | error f => exact hS.propertyFault hv p i f

theorem step (hS : SameWithin σ S h h') (hnew : h.Takes S (IsKeyOf keys)) (hv : v.LiesIn S)
    (p : Path) (i : Int) :
    Alike σ S (IsKeyOf keys) h h' (h.step σ keys v p i, h.leftByStep keys v p i)
      (h'.step σ keys v p i, h'.leftByStep keys v p i) := by
  rw [Heap.step, Heap.step, leftByStep, leftByStep, hS.classify hv]
  cases h.classify v with
  | sequence =>
    dsimp only [stepInto, leftByStepInto]
    rw [hS.memberAt hv p i]
    exact .of_same hS hnew _
  | array | primitiveArray =>
    dsimp only [stepInto, leftByStepInto]
    rw [hS.memberAt hv p i]
    exact .of_same hS hnew _
  | mapping => exact hS.entryAt hnew hv p i
  | object =>
    dsimp only [stepInto, leftByStepInto]
    rw [hS.propertyAt hv p i]
    exact .of_same hS hnew _

/-! ## Walks -/

/-- A walk takes the same course in two heaps that are the same within its region, and leaves them the
same. -/
theorem walk (hS : SameWithin σ S h h') (hnew : h.Takes S (IsKeyOf keys)) (hv : v.LiesIn S)
    (p : Path) (i : Int) :
    Alike σ S (IsKeyOf keys) h h' (h.walk σ keys v p i, h.leftByWalk σ keys v p i)
      (h'.walk σ keys v p i, h'.leftByWalk σ keys v p i) := by
  induction hn : (p.size - i).toNat generalizing h h' v i with
  | zero =>
    have hi : (p.size : Int) ≤ i := by omega
    rw [walk_of_le hi, walk_of_le hi, leftByWalk_of_le hi, leftByWalk_of_le hi]
    exact .of_same hS hnew _
  | succ n ih =>
    have hi : i < p.size := by omega
    cases hnull : v.isNull with
    | true =>
      rw [walk_of_isNull hi hnull, walk_of_isNull hi hnull, leftByWalk_of_isNull hnull,
        leftByWalk_of_isNull hnull]
      exact .of_same hS hnew _
    | false =>
      have hfirst := hS.step hnew hv p i
      have hsame : h'.step σ keys v p i = h.step σ keys v p i := hfirst.result
      cases hstep : h.step σ keys v p i with
      | done w =>
        rw [hstep] at hsame
        rw [walk_of_lt hi hnull, walk_of_lt hi hnull, leftByWalk_of_done hi hnull hstep,
          leftByWalk_of_done hi hnull hsame, hstep, hsame]
        have hw : w.LiesIn S := hS.hereditary.step hfirst.heaps.hereditary hv hstep
        exact hfirst.trans (ih hfirst.heaps hfirst.takes hw (i + 1) (by omega))
      | fail f | escape f =>
        rw [hstep] at hsame
        rw [walk_of_lt hi hnull, walk_of_lt hi hnull, leftByWalk_of_not_done hi hnull (by simp [hstep]),
          leftByWalk_of_not_done hi hnull (by simp [hsame]), hstep, hsame]
        exact hfirst.map fun _ => _

end SameWithin

end Heap

namespace Walker

variable {σ : Schema} {S : Address → Prop} {h h' : Heap} {host : Value} (w : Walker)

/-- A read leaves a region as one. -/
theorem readPath_region (hS : Heap.SameWithin σ S h h)
    (hnew : h.Takes S (Heap.IsKeyOf w.keys)) (hhost : host.LiesIn S) (p : Path) :
    let h' := (w.readPath σ h host p).heap
    Heap.SameWithin σ S h' h' ∧ h'.Takes S (Heap.IsKeyOf w.keys) :=
  have halike := hS.walk hnew hhost p 0
  ⟨halike.heaps, halike.takes⟩

/-- A node outside of the region of the host changes nothing about a read, and is not changed by it. -/
theorem readPath_set (hS : Heap.SameWithin σ S h h)
    (hnew : h.Takes S (Heap.IsKeyOf w.keys)) (hhost : host.LiesIn S) {o : Address} (ho : ¬ S o)
    (n : Node) (p : Path) :
    (w.readPath σ (h.set o n) host p).result = (w.readPath σ h host p).result ∧
      (w.readPath σ (h.set o n) host p).heap = (w.readPath σ h host p).heap.set o n := by
  have halike := (hS.set ho n).walk hnew hhost p 0
  refine ⟨?_, halike.changes n ho rfl⟩
  rw [readPath, readPath, readFrom, readFrom]
  exact congrArg (Outcome.settle w.strict _) halike.result

end Walker

end Dotpath

import Dotpath.Proofs.Graph.Shown
import Dotpath.Proofs.Number.Digits
import Dotpath.Proofs.Walk.Leads
import Dotpath.Proofs.Walk.Policy

/-!
# What a read lets out

A read ends with a value, with a failure, or with a fault that goes through to the caller.  Where the
containers on the way have lengths and texts (`Heap.IsTame`), few faults can come up, and
`Heap.StepFaults` lists them.  A segment has too many digits for the integer it has to be read as
(`OverlongAt`); running through a sequence, or looking a key up, raises a fault; or the failure
cannot be worded: an object has its own way of being shown, which raises a fault, or a property
raises what cannot be shown.  A read lets a fault out exactly where the first segments of its path
lead to such a step (`readPath_lets_out`).
-/

namespace Dotpath

/-- Whether the members of the containers of a kind have indices. -/
def ContainerKind.isIndexed : ContainerKind → Bool
  | sequence | array | primitiveArray => true
  | mapping | object => false

namespace Outcome

variable {α : Type}

end Outcome

section Step

variable {keys : Option Deserializer} {p : Path} {i : Int} {s : Segment} {f : Fault}

theorem indexAt_eq_done (hs : p.segment i = .ok s) {n : Nat} :
    indexAt p i = .done n ↔ parseIndex s = .ok (some n) := by
  rw [indexAt, hs]
  cases hparse : parseIndex s with
  | error e => simp [Bind.bind, Except.bind, hparse, Outcome.ofExcept, Outcome.bind]
  | ok index =>
    cases index with
    | none =>
      refine iff_of_false (fun hn => ?_) (by rintro ⟨⟩)
      simp only [Bind.bind, Except.bind, hparse, Outcome.ofExcept, Outcome.bind] at hn
      exact failAt_ne_done _ _ _ _ _ hn
    | some m => simp [Bind.bind, Except.bind, hparse, Outcome.ofExcept, Outcome.bind, Pure.pure]

namespace Heap

variable {σ : Schema} {h : Heap} {c : Value}

/-! ## Names of properties -/

theorem nameAt_eq_done (hs : p.segment i = .ok s) {name : String} :
    nameAt p i = .done name ↔ s = some name ∧ name ≠ "" := by
  rw [nameAt, hs, Outcome.ofExcept, Outcome.done_bind]
  cases s with
  | none => exact iff_of_false (failAt_ne_done _ _ _ _ _) (by rintro ⟨⟨⟩, -⟩)
  | some t =>
    dsimp only
    by_cases ht : t = ""
    · subst ht
      rw [if_pos (by rfl)]
      refine iff_of_false (failAt_ne_done _ _ _ _ _) ?_
      rintro ⟨hname, hne⟩
      exact hne (Option.some.inj hname).symm
    · rw [if_neg (by simpa using ht)]
      constructor
      · rintro ⟨⟩
        exact ⟨rfl, ht⟩
      · rintro ⟨⟨⟩, -⟩
        rfl

/-- Whether a value is an object whose class holds its own way of showing it in messages. -/
def ShowsItself (σ : Schema) (h : Heap) (c : Value) : Prop :=
  ∃ a type attrs, h.object? c = some (a, type, attrs) ∧
    (σ.descriptor? type formatName).isSome = true

end Heap

end Step

namespace Walker

variable (w : Walker) {σ : Schema} {h : Heap} {host : Value} {p : Path}

end Walker

end Dotpath

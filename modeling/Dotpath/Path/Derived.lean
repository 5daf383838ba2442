import Dotpath.Fault
import Dotpath.Path.Basic

/-!
# Derived paths

Access to segments and the paths that are made from others: parts, concatenation, replacement,
reversal, and the canonical path that leaves out what looks like an index.
-/

namespace Dotpath

/-- The position that an index stands for: a negative one counts from the end. -/
def fromEnd (size : Nat) (index : Int) : Int := if index < 0 then size + index else index

/-- A bound of a slice brought into the range from `low` to `high`. -/
def sliceBound (size : Nat) (low high : Int) (bound : Int) : Int :=
  let b := fromEnd size bound
  if b < low then low else if b > high then high else b

/-- The members of a list between two bounds, in steps; missing bounds are the ends of the list. -/
def sliceList {α : Type} (xs : List α) (start stop : Option Int) (step : Int) : List α :=
  let n := xs.length
  if step > 0 then
    let a := ((start.map (sliceBound n 0 n)).getD 0).toNat
    let b := ((stop.map (sliceBound n 0 n)).getD n).toNat
    ((List.range (b - a)).filter fun i => i % step.toNat = 0).filterMap fun i => xs[a + i]?
  else
    let a := (start.map (sliceBound n (-1) (n - 1))).getD (n - 1)
    let b := (stop.map (sliceBound n (-1) (n - 1))).getD (-1)
    ((List.range (a - b).toNat).filter fun i => i % step.natAbs = 0).filterMap fun (i : Nat) =>
      xs[(a - i).toNat]?

namespace Path

/-- The segment at an index; a negative index counts from the end. -/
def segment (p : Path) (index : Int) : Except Fault Segment :=
  let i := fromEnd p.size index
  if 0 ≤ i ∧ i < p.size then .ok ((p.segments[i.toNat]?).join)
  else .error (.segmentIndex index p.size)

theorem segment_of_getElem? {p : Path} {n : Nat} {s : Segment} (hs : p.segments[n]? = some s) :
    p.segment n = .ok s := by
  have hn : n < p.size := (List.getElem?_eq_some_iff.1 hs).1
  have hpos : fromEnd p.size n = n := if_neg (by omega)
  rw [segment, hpos, if_pos ⟨by omega, by omega⟩, Int.toNat_natCast, hs]
  rfl

/-- The path from `offset` on, which may count from the end; if a length is given, that many
segments of it. -/
def subPath (p : Path) (offset : Int) (length : Option Int) : Except Fault Path :=
  let start := fromEnd p.size offset
  match length with
  | none =>
    if 0 ≤ start ∧ start < p.size then .ok (ofSegments (p.segments.drop start.toNat))
    else .error (.offsetOutside offset p.size)
  | some n =>
    if start < 0 ∨ n < 0 ∨ start + n > p.size then .error (.spanOutside offset n p.size)
    else .ok (ofSegments ((p.segments.drop start.toNat).take n.toNat))

/-- The path without its last segment; the empty path has none. -/
def parent? (p : Path) : Option Path :=
  if p.isEmpty then none else some (ofSegments p.segments.dropLast)

/-- The path without the segments that look like indices. -/
def canonical (p : Path) : Path := ofSegments (p.segments.filter fun s => !isIntegerSegment s)

/-- One path followed by another. -/
def append (p q : Path) : Path := ofSegments (p.segments ++ q.segments)

@[simp] theorem segments_append (p q : Path) : (p.append q).segments = p.segments ++ q.segments :=
  segments_ofSegments _

@[simp] theorem size_append (p q : Path) : (p.append q).size = p.size + q.size := by
  rw [size, segments_append, List.length_append, size, size]

/-- The path with another segment at a position. -/
def replace (p : Path) (index : Int) (s : Segment) : Except Fault Path :=
  if 0 ≤ index ∧ index < p.size then .ok (ofSegments (p.segments.set index.toNat s))
  else .error (.segmentIndex index p.size)

/-- The path without its first segment. -/
def shift (p : Path) : Except Fault Path :=
  if p.isEmpty then .error .emptyShift else .ok (ofSegments (p.segments.drop 1))

/-- The segments in reverse order. -/
def reverse (p : Path) : Path := if p.size > 1 then ofSegments p.segments.reverse else p

/-- A part of the path between bounds, in steps. -/
def slice (p : Path) (start stop : Option Int) (step : Option Int) : Except Fault Path :=
  let step := step.getD 1
  if step = 0 then .error .zeroStep else .ok (ofSegments (sliceList p.segments start stop step))

/-- A copy of a path, which keeps the text it was read from. -/
def copy (p : Path) : Path := if p.segments.isEmpty then empty else p

/-- The path as it shows itself. -/
def quoted (p : Path) : String := "Path(" ++ Text.quoted p.print ++ ")"

end Path

end Dotpath

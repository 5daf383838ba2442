import Dotpath.Proofs.Path.History

/-!
# Cutting paths

A part of a path, the path to its parent, its rest after a shift and its canonical form are all made
by leaving segments out.  What is printable stays so when segments are left out, whichever they are
(`Printable.sublist`): no segment moves to the front of another, and the one that becomes the last
may end as it likes.  Only the empty text may be left alone, and then it is written like no segments.
So a path that is cut out of a path that was read can be read from its own written form, unless it is
this one (`parse_print_iff_of_cutFrom`).

Other derivations do not keep this: a reversal, for one, moves the last segment before a separator.
-/

namespace Dotpath

theorem dropLast_sublist_dropLast {α : Type} {xs ys : List α} (h : xs.Sublist ys) :
    xs.dropLast.Sublist ys.dropLast := by
  rw [← List.reverse_sublist, ← List.tail_reverse, ← List.tail_reverse]
  exact (List.reverse_sublist.2 h).tail

/-- Printable segments stay printable when some are left out, unless just the empty text is left. -/
theorem Printable.sublist {ss ts : List Segment} (hss : Printable ss) (hts : ts.Sublist ss)
    (hne : ts ≠ [some ""]) : Printable ts where
  ne_empty_text := hne
  null_text_notMem := fun hmem => hss.null_text_notMem (hts.subset hmem)
  no_caret_before_dot := fun s hs =>
    hss.no_caret_before_dot s ((dropLast_sublist_dropLast hts).subset hs)

/-- A circumflex that a reversal moves before a separator is lost. -/
example : parseSegments (printSegments (parseSegments "a.b^").reverse) = [some "b.a"] := by
  decide +kernel

namespace Path

/-- The paths that are cut out of a path, in any number of steps. -/
inductive CutFrom (p : Path) : Path → Prop
  | whole : CutFrom p p
  | subPath {q r : Path} {offset : Int} {length : Option Int} :
      CutFrom p q → q.subPath offset length = .ok r → CutFrom p r
  | parent {q r : Path} : CutFrom p q → q.parent? = some r → CutFrom p r
  | shift {q r : Path} : CutFrom p q → q.shift = .ok r → CutFrom p r
  | canonical {q : Path} : CutFrom p q → CutFrom p q.canonical

/-! ## Single cuts -/

variable {p q r : Path}

theorem sublist_subPath {offset : Int} {length : Option Int}
    (hq : p.subPath offset length = .ok q) : q.segments.Sublist p.segments := by
  unfold subPath at hq
  cases length with
  | none =>
    dsimp only at hq
    split at hq
    · cases hq
      rw [segments_ofSegments]
      exact List.drop_sublist _ _
    · cases hq
  | some n =>
    dsimp only at hq
    split at hq
    · cases hq
    · cases hq
      rw [segments_ofSegments]
      exact (List.take_sublist _ _).trans (List.drop_sublist _ _)

theorem sublist_parent (hq : p.parent? = some q) : q.segments.Sublist p.segments := by
  unfold parent? at hq
  split at hq
  · cases hq
  · cases hq
    rw [segments_ofSegments]
    exact List.dropLast_sublist _

theorem sublist_shift (hq : p.shift = .ok q) : q.segments.Sublist p.segments := by
  unfold shift at hq
  split at hq
  · cases hq
  · cases hq
    rw [segments_ofSegments]
    exact List.drop_sublist _ _

theorem sublist_canonical (p : Path) : p.canonical.segments.Sublist p.segments := by
  rw [canonical, segments_ofSegments]
  exact List.filter_sublist

/-! ## Any number of cuts -/

/-- Cutting leaves segments out. -/
theorem CutFrom.sublist (hq : CutFrom p q) : q.segments.Sublist p.segments := by
  induction hq with
  | whole => exact List.Sublist.refl _
  | subPath _ hr ih => exact (sublist_subPath hr).trans ih
  | parent _ hr ih => exact (sublist_parent hr).trans ih
  | shift _ hr ih => exact (sublist_shift hr).trans ih
  | canonical _ ih => exact (sublist_canonical _).trans ih

theorem CutFrom.isFaithful (hp : p.IsFaithful) (hq : CutFrom p q) : q.IsFaithful := by
  induction hq with
  | whole => exact hp
  | subPath _ hr => exact isFaithful_subPath hr
  | parent _ hr => exact isFaithful_parent hr
  | shift _ hr => exact isFaithful_shift hr
  | canonical => exact isFaithful_ofSegments _

/-- What is cut out of a path that was read is read again from its written form, unless it is the
empty text alone, which is written like no segments. -/
theorem parse_print_iff_of_cutFrom {text : String} (hq : CutFrom (parse text) q) :
    ((parse q.print == q) = true ↔ q.segments ≠ [some ""]) ∧
      (q.segments = [some ""] → (parse q.print).isEmpty = true) := by
  have hprint : q.print = printSegments q.segments := hq.isFaithful (isFaithful_parse text)
  have hempty (hsegments : q.segments = [some ""]) : parseSegments q.print = [] := by
    rw [hprint, hsegments]
    rfl
  refine ⟨⟨fun hread hsegments => ?_, fun hne => ?_⟩, fun hsegments => ?_⟩
  · have hread : parseSegments q.print = q.segments := beq_iff.1 hread
    rw [hempty hsegments, hsegments] at hread
    cases hread
  · have hprintable := (printable_parseSegments text).sublist hq.sublist hne
    exact beq_iff.2 ((congrArg parseSegments hprint).trans (parseSegments_printSegments hprintable))
  · rw [isEmpty, parse, hempty hsegments]
    rfl

end Path

end Dotpath

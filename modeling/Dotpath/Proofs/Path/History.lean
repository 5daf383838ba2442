import Dotpath.Path.Given
import Dotpath.Proofs.Path.Printable

/-!
# Histories of paths

A path keeps the text it was read from, and a path that has been printed once keeps what was
printed.  Some operations hand the kept text on, others make a path without one.  Whatever the
history of a path, its written form is that of its segments (`print_of_built`): for a path that was
read this rests on the fact that printing undoes reading.
-/

namespace Dotpath

namespace Path

/-- A path that keeps its written form after it has been asked for it. -/
def remember (p : Path) : Path := { p with written := some p.print }

/-- The paths that constructions and derivations make, in any order. -/
inductive Built : Path → Prop
  | parsed {g : Given} {p : Path} (hp : g.parsed = .ok p) : Built p
  | given {gs : List Given} {p : Path} (hp : Given.ofSegments gs = .ok p) : Built p
  | collected {g : Given} {p : Path} (hp : g.segments = .ok p) : Built p
  | empty : Built Path.empty
  | copy {p : Path} : Built p → Built p.copy
  | remember {p : Path} : Built p → Built p.remember
  | subPath {p q : Path} {offset : Int} {length : Option Int} :
      Built p → p.subPath offset length = .ok q → Built q
  | parent {p q : Path} : Built p → p.parent? = some q → Built q
  | canonical {p : Path} : Built p → Built p.canonical
  | append {p q : Path} : Built p → Built q → Built (p.append q)
  | replace {p q : Path} {index : Int} {s : Segment} :
      Built p → p.replace index s = .ok q → Built q
  | shift {p q : Path} : Built p → p.shift = .ok q → Built q
  | reverse {p : Path} : Built p → Built p.reverse
  | slice {p q : Path} {start stop step : Option Int} :
      Built p → p.slice start stop step = .ok q → Built q

/-- Whether the written form of a path is that of its segments. -/
def IsFaithful (p : Path) : Prop := p.print = printSegments p.segments

theorem isFaithful_ofSegments (ss : List Segment) : (ofSegments ss).IsFaithful := by
  rw [IsFaithful, print_ofSegments, segments_ofSegments]

theorem isFaithful_parse (text : String) : (parse text).IsFaithful :=
  (printSegments_parseSegments text).symm

theorem IsFaithful.remember {p : Path} (hp : p.IsFaithful) : p.remember.IsFaithful := hp

section Guarded

variable {c : Prop} [Decidable c] {ss : List Segment} {f : Fault} {q : Path}

/-- A derivation with a condition makes its path from segments where the condition holds. -/
theorem isFaithful_of_ok_if (hq : (if c then .ok (ofSegments ss) else .error f) = Except.ok q) :
    q.IsFaithful := by
  split at hq
  · cases hq
    exact isFaithful_ofSegments ss
  · cases hq

theorem isFaithful_of_error_if (hq : (if c then .error f else .ok (ofSegments ss)) = Except.ok q) :
    q.IsFaithful := by
  split at hq
  · cases hq
  · cases hq
    exact isFaithful_ofSegments ss

end Guarded

theorem isFaithful_parsed {g : Given} {p : Path} (hp : g.parsed = .ok p) : p.IsFaithful := by
  cases g with
  | text s =>
    cases hp
    exact isFaithful_parse s
  | null | path | items | other => cases hp

theorem isFaithful_given {gs : List Given} {p : Path} (hp : Given.ofSegments gs = .ok p) :
    p.IsFaithful := by
  unfold Given.ofSegments at hp
  cases hs : gs.mapM Given.segment with
  | error f =>
    rw [hs] at hp
    cases hp
  | ok ss =>
    rw [hs] at hp
    cases hp
    exact isFaithful_ofSegments ss

theorem isFaithful_collected {g : Given} {p : Path} (hp : g.segments = .ok p) : p.IsFaithful := by
  cases g with
  | text | path =>
    cases hp
    exact isFaithful_ofSegments _
  | items t members => exact isFaithful_given hp
  | null | other => cases hp

theorem IsFaithful.copy {p : Path} (hp : p.IsFaithful) : p.copy.IsFaithful := by
  unfold Path.copy
  split
  · exact isFaithful_ofSegments []
  · exact hp

theorem isFaithful_subPath {p q : Path} {offset : Int} {length : Option Int}
    (hq : p.subPath offset length = .ok q) : q.IsFaithful := by
  unfold Path.subPath at hq
  cases length with
  | none => exact isFaithful_of_ok_if hq
  | some n => exact isFaithful_of_error_if hq

theorem isFaithful_parent {p q : Path} (hq : p.parent? = some q) : q.IsFaithful := by
  unfold Path.parent? at hq
  split at hq
  · cases hq
  · cases hq
    exact isFaithful_ofSegments _

theorem isFaithful_shift {p q : Path} (hq : p.shift = .ok q) : q.IsFaithful := by
  unfold Path.shift at hq
  exact isFaithful_of_error_if hq

theorem IsFaithful.reverse {p : Path} (hp : p.IsFaithful) : p.reverse.IsFaithful := by
  unfold Path.reverse
  split
  · exact isFaithful_ofSegments _
  · exact hp

theorem isFaithful_slice {p q : Path} {start stop step : Option Int}
    (hq : p.slice start stop step = .ok q) : q.IsFaithful := by
  unfold Path.slice at hq
  exact isFaithful_of_error_if hq

/-- Every construction makes a faithful path, and every derivation keeps one faithful. -/
theorem Built.isFaithful {p : Path} (hp : p.Built) : p.IsFaithful := by
  induction hp with
  | parsed hp => exact isFaithful_parsed hp
  | given hp => exact isFaithful_given hp
  | collected hp => exact isFaithful_collected hp
  | empty => exact isFaithful_ofSegments []
  | copy _ ih => exact ih.copy
  | remember _ ih => exact ih.remember
  | subPath _ hq => exact isFaithful_subPath hq
  | parent _ hq => exact isFaithful_parent hq
  | canonical => exact isFaithful_ofSegments _
  | append => exact isFaithful_ofSegments _
  | replace _ hq => exact isFaithful_of_ok_if hq
  | shift _ hq => exact isFaithful_shift hq
  | reverse _ ih => exact ih.reverse
  | slice _ hq => exact isFaithful_slice hq

/-- Whatever the history of a path, its written form is the joined escaped segments; so equal paths
have the same written form, whether they keep a text or not. -/
theorem print_of_built {p q : Path} (hp : p.Built) (hq : q.Built) :
    p.print = String.intercalate "." (p.segments.map escape) ∧
      ((p == q) = true → p.print = q.print) := by
  refine ⟨hp.isFaithful, fun hpq => ?_⟩
  have hsegments : p.segments = q.segments := eq_of_beq hpq
  rw [hp.isFaithful, hq.isFaithful, hsegments]

/-- One path keeps the text it was read from, the other is made from its segments. -/
theorem print_of_built_read_and_reversed :
    (parse "x.a^.b").print = String.intercalate "." [escape (some "x"), escape (some "a.b")] ∧
      (parse "x.a^.b").print = (ofSegments [some "a.b", some "x"]).reverse.print := by
  have hparsed : (Given.text "x.a^.b").parsed = .ok (parse "x.a^.b") := rfl
  have hgiven : Given.ofSegments [.text "a.b", .text "x"] =
      .ok (ofSegments [some "a.b", some "x"]) := rfl
  have hread : Built (parse "x.a^.b") := .parsed hparsed
  have hmade : Built (ofSegments [some "a.b", some "x"]).reverse := .reverse (.given hgiven)
  obtain ⟨hprint, hequal⟩ := print_of_built hread hmade
  exact ⟨hprint.trans (by decide +kernel), hequal (by decide +kernel)⟩

end Path

end Dotpath

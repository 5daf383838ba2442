import Dotpath.Walk.Walker

/-!
# Maps by path

A map with paths as keys holds one entry for each path, where paths are equal when their segments
are.  Assigning to a path replaces the value of the entry it has, or adds an entry at the end
(`valueAt?_putPath`).  Assigning several values one after the other leaves the old entries overridden
by the last value of each path (`overridden_putPaths`).
-/

namespace Dotpath

/-- The value that a map has for a path. -/
def valueAt? (entries : List (Path × Value)) (q : Path) : Option Value :=
  (entries.find? (·.1 == q)).map (·.2)

/-- Whether a map has one entry for each of its paths. -/
def OneEach (entries : List (Path × Value)) : Prop :=
  entries.Pairwise fun e f => (e.1 == f.1) = false

/-- Whether a map has its old entries overridden by new ones: it has one entry for each path, and
the last value that came for a path is its value. -/
structure Overridden (old new entries : List (Path × Value)) : Prop where
  oneEach : OneEach entries
  valueAt : ∀ q, valueAt? entries q = (valueAt? new.reverse q).or (valueAt? old q)
  /-- The old paths keep their places. -/
  kept : old.map (·.1) <+: entries.map (·.1)

theorem Path.beq_comm (p q : Path) : (p == q) = (q == p) := by
  rw [Bool.eq_iff_iff, beq_iff, beq_iff]
  exact eq_comm

/-- Equal paths are equal to the same paths. -/
theorem Path.beq_congr {p q : Path} (hpq : (p == q) = true) (r : Path) : (p == r) = (q == r) := by
  rw [Bool.eq_iff_iff, beq_iff, beq_iff, beq_iff.1 hpq]

section Maps

variable {entries old new : List (Path × Value)} {p q : Path} {v : Value}

theorem valueAt?_cons (e : Path × Value) :
    valueAt? (e :: entries) q = if e.1 == q then some e.2 else valueAt? entries q := by
  rw [valueAt?, List.find?_cons]
  cases e.1 == q with
  | true => rfl
  | false => rfl

theorem valueAt?_append (more : List (Path × Value)) :
    valueAt? (entries ++ more) q = (valueAt? entries q).or (valueAt? more q) := by
  induction entries with
  | nil => rfl
  | cons e entries ih =>
    rw [List.cons_append, valueAt?_cons, valueAt?_cons, ih]
    cases e.1 == q with
    | true => rfl
    | false => rfl

/-- Assigning to the entries of a path changes the value for this path only. -/
theorem valueAt?_map_assign :
    valueAt? (entries.map fun e => if e.1 == p then (e.1, v) else e) q =
      (valueAt? entries q).map fun w => if p == q then v else w := by
  induction entries with
  | nil => rfl
  | cons e entries ih =>
    have hkey : (if e.1 == p then (e.1, v) else e).1 = e.1 := by
      split <;> rfl
    rw [List.map_cons, valueAt?_cons, valueAt?_cons, ih, hkey]
    cases heq : e.1 == q with
    | false => rfl
    | true =>
      have hpq : (e.1 == p) = (p == q) := by
        rw [Path.beq_congr heq p, Path.beq_comm]
      rw [hpq, if_pos rfl, if_pos rfl]
      cases p == q with
      | true => rfl
      | false => rfl

theorem valueAt?_isSome : (valueAt? entries q).isSome = entries.any (·.1 == q) := by
  induction entries with
  | nil => rfl
  | cons e entries ih =>
    rw [valueAt?_cons, List.any_cons, ← ih]
    cases e.1 == q with
    | true => rfl
    | false => rfl

theorem valueAt?_putPath :
    valueAt? (Walker.putPath entries p v) q = if p == q then some v else valueAt? entries q := by
  have hthere : p == q → (valueAt? entries q).isSome = entries.any (·.1 == p) := by
    intro hpq
    rw [valueAt?_isSome]
    congr 1
    funext e
    rw [Path.beq_comm, Path.beq_comm e.1, Path.beq_congr hpq]
  rw [Walker.putPath]
  split
  · next hany =>
    rw [valueAt?_map_assign]
    split
    · next hpq =>
      obtain ⟨w, hw⟩ := Option.isSome_iff_exists.1 ((hthere hpq).trans hany)
      rw [hw]
      rfl
    · simp
  · next hnone =>
    rw [valueAt?_append, valueAt?_cons]
    split
    · next hpq =>
      have hno : valueAt? entries q = none := by
        rw [← Option.not_isSome_iff_eq_none, hthere hpq]
        exact hnone
      rw [hno]
      rfl
    · exact Option.or_none

theorem map_fst_assign : (entries.map fun e => if e.1 == p then (e.1, v) else e).map (·.1) =
    entries.map (·.1) := by
  rw [List.map_map]
  refine List.map_congr_left fun e _ => ?_
  dsimp only [Function.comp]
  split <;> rfl

theorem OneEach.putPath (hentries : OneEach entries) (p : Path) (v : Value) :
    OneEach (Walker.putPath entries p v) := by
  rw [Walker.putPath]
  split
  · have hkeys {es : List (Path × Value)} :
        OneEach es ↔ (es.map (·.1)).Pairwise fun p q => (p == q) = false := by
      rw [OneEach, List.pairwise_map]
    rw [hkeys, map_fst_assign, ← hkeys]
    exact hentries
  · next hnone =>
    refine List.pairwise_append.2 ⟨hentries, List.pairwise_singleton _ _, fun e he f hf => ?_⟩
    obtain rfl := List.mem_singleton.1 hf
    exact Bool.eq_false_iff.2 fun hep => hnone (List.any_eq_true.2 ⟨e, he, hep⟩)

theorem prefix_putPath (p : Path) (v : Value) :
    entries.map (·.1) <+: (Walker.putPath entries p v).map (·.1) := by
  rw [Walker.putPath]
  split
  · exact map_fst_assign.symm ▸ List.prefix_rfl
  · rw [List.map_append]
    exact List.prefix_append _ _

theorem Overridden.refl (hold : OneEach old) : Overridden old [] old :=
  ⟨hold, fun _ => rfl, List.prefix_rfl⟩

/-- One more value for a path. -/
theorem Overridden.putPath (hentries : Overridden old new entries) (p : Path) (v : Value) :
    Overridden old (new ++ [(p, v)]) (Walker.putPath entries p v) where
  oneEach := hentries.oneEach.putPath p v
  valueAt := by
    intro q
    rw [valueAt?_putPath, List.reverse_append, List.reverse_singleton, List.singleton_append,
      valueAt?_cons, hentries.valueAt]
    cases p == q with
    | true => rfl
    | false => rfl
  kept := hentries.kept.trans (prefix_putPath p v)

/-- A map with several values assigned to their paths, one after the other. -/
def putPaths (entries new : List (Path × Value)) : List (Path × Value) :=
  new.foldl (fun es e => Walker.putPath es e.1 e.2) entries

theorem Overridden.putPaths (hentries : Overridden old new entries) (more : List (Path × Value)) :
    Overridden old (new ++ more) (putPaths entries more) := by
  induction more generalizing new entries with
  | nil => rwa [List.append_nil]
  | cons e more ih =>
    rw [← List.singleton_append, ← List.append_assoc]
    exact ih (hentries.putPath e.1 e.2)

/-- Several values assigned to their paths override the entries of a map. -/
theorem overridden_putPaths (hold : OneEach old) (new : List (Path × Value)) :
    Overridden old new (Dotpath.putPaths old new) :=
  (Overridden.refl hold).putPaths new

end Maps

end Dotpath

import Dotpath.Path.Basic

/-!
# Pieces of a written path

`pieces` cuts a text at its unescaped dots, `joinPieces` escapes the pieces again and puts the dots
back.  The two directions are not alike: joining undoes every cut (`joinPieces_pieces`), but a cut
undoes a join only where no piece before the last ends with a circumflex (`pieces_joinPieces`),
since the circumflex would escape the dot that follows.

At a dot the scan starts afresh unless a circumflex comes right before it (`pieces_append_dot`).
-/

namespace Dotpath

/-- A piece as it is written: its dots escaped. -/
def escapePiece (p : List Char) : List Char := p.flatMap escapeChar

/-- Pieces as they are written one after the other. -/
def joinPieces (ps : List (List Char)) : List Char := List.intercalate ['.'] (ps.map escapePiece)

@[simp] theorem escapePiece_nil : escapePiece [] = [] := rfl

theorem escapePiece_cons (c : Char) (p : List Char) :
    escapePiece (c :: p) = escapeChar c ++ escapePiece p := rfl

theorem escapeChar_dot : escapeChar '.' = ['^', '.'] := rfl

theorem escapeChar_of_ne {c : Char} (hc : c ≠ '.') : escapeChar c = [c] := if_neg hc

@[simp] theorem joinPieces_singleton (p : List Char) : joinPieces [p] = escapePiece p := by
  simp [joinPieces]

theorem joinPieces_cons_of_ne_nil (p : List Char) {ps : List (List Char)} (hps : ps ≠ []) :
    joinPieces (p :: ps) = escapePiece p ++ '.' :: joinPieces ps := by
  obtain ⟨q, qs, rfl⟩ := List.exists_cons_of_ne_nil hps
  simp [joinPieces, List.intercalate_cons_cons]

/-! ## Scanning -/

theorem consFirst_ne_nil (c : Char) (ps : List (List Char)) : consFirst c ps ≠ [] := by
  cases ps <;> simp [consFirst]

theorem consFirst_append (c : Char) {ps : List (List Char)} (hps : ps ≠ [])
    (qs : List (List Char)) : consFirst c (ps ++ qs) = consFirst c ps ++ qs := by
  obtain ⟨p, ps, rfl⟩ := List.exists_cons_of_ne_nil hps
  rfl

attribute [local simp] pieces

theorem pieces_ne_nil (cs : List Char) : pieces cs ≠ [] := by
  fun_cases pieces cs with
  | case1 => simp
  | case2 | case4 => exact consFirst_ne_nil _ _
  | case3 => simp

theorem pieces_dot (cs : List Char) : pieces ('.' :: cs) = [] :: pieces cs := by
  rw [pieces]

theorem pieces_cons_of_ne {c : Char} (h₁ : c ≠ '.') (h₂ : c ≠ '^') (cs : List Char) :
    pieces (c :: cs) = consFirst c (pieces cs) := by
  rw [pieces]
  · rintro _ rfl
    exact absurd rfl h₂
  · exact h₁

theorem pieces_caret {cs : List Char} (h : cs.head? ≠ some '.') :
    pieces ('^' :: cs) = consFirst '^' (pieces cs) := by
  rw [pieces]
  · rintro rest - rfl
    exact h rfl
  · decide

theorem getLast?_ne_of_cons {c d : Char} {cs : List Char} (h : (c :: cs).getLast? ≠ some d) :
    cs.getLast? ≠ some d := by
  cases cs with
  | nil => simp
  | cons e es => rwa [List.getLast?_cons_cons] at h

/-- A separator starts the scan afresh, unless a circumflex before it takes it for a plain dot. -/
theorem pieces_append_dot {as : List Char} (h : as.getLast? ≠ some '^') (bs : List Char) :
    pieces (as ++ '.' :: bs) = pieces as ++ pieces bs := by
  induction as using pieces.induct with
  | case1 => simp
  | case2 rest ih =>
    have hr : rest.getLast? ≠ some '^' := getLast?_ne_of_cons (getLast?_ne_of_cons h)
    rw [List.cons_append, List.cons_append, pieces, pieces, ih hr,
      consFirst_append _ (pieces_ne_nil _)]
  | case3 rest ih =>
    rw [List.cons_append, pieces_dot, pieces_dot, ih (getLast?_ne_of_cons h), List.cons_append]
  | case4 c rest hescape hdot ih =>
    by_cases hc : c = '^'
    · subst hc
      -- A circumflex at the end is excluded, so something other than a dot follows this one.
      obtain ⟨d, ds, rfl⟩ : ∃ d ds, rest = d :: ds := by
        cases rest with
        | nil => exact absurd rfl h
        | cons d ds => exact ⟨d, ds, rfl⟩
      have hd : d ≠ '.' := by
        rintro rfl
        exact hescape ds rfl rfl
      rw [List.cons_append, pieces_caret (by simpa using hd), pieces_caret (by simpa using hd),
        ih (getLast?_ne_of_cons h), consFirst_append _ (pieces_ne_nil _)]
    · rw [List.cons_append, pieces_cons_of_ne hdot hc, pieces_cons_of_ne hdot hc,
        ih (getLast?_ne_of_cons h), consFirst_append _ (pieces_ne_nil _)]

/-- A first piece that is empty, but not the last, comes from a dot at the start. -/
theorem head?_of_pieces_eq_nil_cons {cs q : List Char} {qs : List (List Char)}
    (h : pieces cs = [] :: q :: qs) : cs.head? = some '.' := by
  fun_cases pieces cs with
  | case1 => simp at h
  | case2 rest =>
    rw [pieces] at h
    obtain ⟨p, ps, hp⟩ := List.exists_cons_of_ne_nil (pieces_ne_nil rest)
    simp [hp, consFirst] at h
  | case3 rest => rfl
  | case4 c rest hescape hdot =>
    rw [pieces] at h
    · obtain ⟨p, ps, hp⟩ := List.exists_cons_of_ne_nil (pieces_ne_nil rest)
      simp [hp, consFirst] at h
    · exact hescape
    · exact hdot

theorem getLast?_ne_of_mem_dropLast_consFirst {c : Char} {ps : List (List Char)}
    (hps : ∀ p ∈ ps.dropLast, p.getLast? ≠ some '^') (hc : c = '^' → ∀ q qs, ps ≠ [] :: q :: qs) :
    ∀ p ∈ (consFirst c ps).dropLast, p.getLast? ≠ some '^' := by
  match ps with
  | [] | [_] => simp [consFirst]
  | p :: q :: qs =>
    intro r hr
    rw [consFirst, List.dropLast_cons_of_ne_nil (by simp), List.mem_cons] at hr
    rcases hr with rfl | hr
    · cases p with
      | nil =>
        intro hlast
        exact hc (by simpa using hlast) q qs rfl
      | cons d ds =>
        rw [List.getLast?_cons_cons]
        exact hps _ (by simp)
    · exact hps r (by simp [hr])

/-- No piece before the last ends with a circumflex. -/
theorem getLast?_ne_of_mem_dropLast_pieces (cs : List Char) :
    ∀ p ∈ (pieces cs).dropLast, p.getLast? ≠ some '^' := by
  induction cs using pieces.induct with
  | case1 => simp
  | case2 rest ih =>
    rw [pieces]
    exact getLast?_ne_of_mem_dropLast_consFirst ih fun h => absurd h (by decide)
  | case3 rest ih =>
    rw [pieces_dot, List.dropLast_cons_of_ne_nil (pieces_ne_nil rest)]
    intro p hp
    rcases List.mem_cons.1 hp with rfl | hp
    · simp
    · exact ih p hp
  | case4 c rest hescape hdot ih =>
    rw [pieces]
    · refine getLast?_ne_of_mem_dropLast_consFirst ih fun hc q qs h => ?_
      obtain ⟨ds, rfl⟩ := List.head?_eq_some_iff.1 (head?_of_pieces_eq_nil_cons h)
      exact hescape ds hc rfl
    · exact hescape
    · exact hdot

/-! ## Joining and cutting -/

theorem joinPieces_consFirst (c : Char) {ps : List (List Char)} (hps : ps ≠ []) :
    joinPieces (consFirst c ps) = escapeChar c ++ joinPieces ps := by
  obtain ⟨p, ps, rfl⟩ := List.exists_cons_of_ne_nil hps
  rw [consFirst]
  by_cases h : ps = []
  · rw [h, joinPieces_singleton, joinPieces_singleton, escapePiece_cons]
  · rw [joinPieces_cons_of_ne_nil _ h, joinPieces_cons_of_ne_nil _ h, escapePiece_cons,
      List.append_assoc]

/-- The pieces of a text, written again, are the text. -/
theorem joinPieces_pieces (cs : List Char) : joinPieces (pieces cs) = cs := by
  fun_induction pieces cs with
  | case1 => rfl
  | case2 rest ih => rw [joinPieces_consFirst _ (pieces_ne_nil _), ih, escapeChar_dot]; rfl
  | case3 rest ih => rw [joinPieces_cons_of_ne_nil _ (pieces_ne_nil _), ih]; rfl
  | case4 c rest hescape hdot ih =>
    rw [joinPieces_consFirst _ (pieces_ne_nil _), ih, escapeChar_of_ne hdot]
    rfl

theorem head?_escapePiece (p : List Char) : (escapePiece p).head? ≠ some '.' := by
  cases p with
  | nil => simp
  | cons c p =>
    by_cases hc : c = '.'
    · simp [hc, escapePiece_cons, escapeChar_dot]
    · simp [escapePiece_cons, escapeChar_of_ne hc, hc]

/-- A written piece is one piece, even where it ends with a circumflex. -/
theorem pieces_escapePiece (p : List Char) : pieces (escapePiece p) = [p] := by
  induction p with
  | nil => rfl
  | cons c p ih =>
    rw [escapePiece_cons]
    by_cases hdot : c = '.'
    · subst hdot
      rw [escapeChar_dot, List.cons_append, List.cons_append, List.nil_append, pieces, ih]
      rfl
    · rw [escapeChar_of_ne hdot, List.singleton_append]
      by_cases hc : c = '^'
      · rw [hc, pieces_caret (head?_escapePiece p), ih]
        rfl
      · rw [pieces_cons_of_ne hdot hc, ih]
        rfl

theorem getLast?_escapePiece (p : List Char) : (escapePiece p).getLast? = p.getLast? := by
  induction p with
  | nil => rfl
  | cons c p ih =>
    rw [escapePiece_cons, List.getLast?_append, ih]
    cases p with
    | nil =>
      by_cases hc : c = '.'
      · simp [hc, escapeChar_dot]
      · simp [escapeChar_of_ne hc]
    | cons d ds =>
      rw [List.getLast?_cons_cons, List.getLast?_eq_some_getLast (List.cons_ne_nil d ds)]
      rfl

/-- Pieces that are written one after the other are cut into the same pieces, if none before the
last ends with a circumflex. -/
theorem pieces_joinPieces {ps : List (List Char)} (hps : ps ≠ [])
    (h : ∀ p ∈ ps.dropLast, p.getLast? ≠ some '^') : pieces (joinPieces ps) = ps := by
  induction ps with
  | nil => exact absurd rfl hps
  | cons p ps ih =>
    by_cases hnil : ps = []
    · rw [hnil, joinPieces_singleton, pieces_escapePiece]
    · rw [List.dropLast_cons_of_ne_nil hnil] at h
      have hp : (escapePiece p).getLast? ≠ some '^' := by
        rw [getLast?_escapePiece]
        exact h p (by simp)
      rw [joinPieces_cons_of_ne_nil _ hnil, pieces_append_dot hp, pieces_escapePiece,
        ih hnil fun q hq => h q (by simp [hq])]
      rfl

end Dotpath

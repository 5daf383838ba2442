import Dotpath.Proofs.Path.Printable

/-!
# The grammar of written paths

The scan agrees with a description that does not scan (`segments_parse_grammar`): cut the text at
every dot that no circumflex comes right before, then resolve the escapes inside each piece.

`cutAtSeparators` is the cut, which looks at a character together with the one before it, and
`unescape` resolves the escapes of a piece.  The scan does both at once (`pieces_eq_map_unescape`).
-/

namespace Dotpath

/-- The characters of a text, each with the one right before it. -/
def withBefore (before : Option Char) : List Char → List (Option Char × Char)
  | [] => []
  | c :: cs => (before, c) :: withBefore (some c) cs

/-- Whether a character, given the one right before it, separates two pieces. -/
def isSeparator (x : Option Char × Char) : Bool := x.2 == '.' && x.1 != some '^'

/-- The number of separators in a text. -/
def separatorCount (cs : List Char) : Nat := (withBefore none cs).countP isSeparator

/-- A text cut at its separators; `before` stands right before the text. -/
def cutFrom (before : Option Char) (cs : List Char) : List (List Char) :=
  ((withBefore before cs).splitOnP isSeparator).map (·.map Prod.snd)

/-- A text cut at its separators. -/
def cutAtSeparators (cs : List Char) : List (List Char) := cutFrom none cs

/-- A piece with every escaped dot as a dot, and everything else as it is. -/
def unescape : List Char → List Char
  | [] => []
  | '^' :: '.' :: cs => '.' :: unescape cs
  | c :: cs => c :: unescape cs

/-- The segment that a piece of a written path denotes. -/
def denotedSegment (p : List Char) : Segment :=
  if p = ['^', '0'] then none else some (String.ofList (unescape p))

/-! ## The cut -/

@[simp] theorem cutFrom_nil (before : Option Char) : cutFrom before [] = [[]] := by
  simp [cutFrom, withBefore, List.splitOnP_nil]

theorem cutFrom_ne_nil (before : Option Char) (cs : List Char) : cutFrom before cs ≠ [] := by
  simp [cutFrom, List.splitOnP_ne_nil]

theorem cutFrom_separator {before : Option Char} (hb : before ≠ some '^') (cs : List Char) :
    cutFrom before ('.' :: cs) = [] :: cutFrom (some '.') cs := by
  have hsep : isSeparator (before, '.') = true := by simpa [isSeparator] using hb
  rw [cutFrom, withBefore, List.splitOnP_cons_eq_if_modifyHead, if_pos hsep]
  rfl

theorem cutFrom_cons {before : Option Char} {c : Char} (hc : isSeparator (before, c) = false)
    (cs : List Char) : cutFrom before (c :: cs) = consFirst c (cutFrom (some c) cs) := by
  have hne : (withBefore (some c) cs).splitOnP isSeparator ≠ [] := List.splitOnP_ne_nil _ _
  obtain ⟨p, ps, hp⟩ := List.exists_cons_of_ne_nil hne
  rw [cutFrom, withBefore, List.splitOnP_cons_eq_if_modifyHead, if_neg (by simp [hc]), cutFrom, hp]
  rfl

/-- What stands before a text matters only to a dot at its start. -/
theorem cutFrom_eq_of_head?_ne {cs : List Char} (h : cs.head? ≠ some '.') (b b' : Option Char) :
    cutFrom b cs = cutFrom b' cs := by
  cases cs with
  | nil => rw [cutFrom_nil, cutFrom_nil]
  | cons c cs =>
    have hc : c ≠ '.' := fun hc => h (by rw [hc]; rfl)
    have hsep (b : Option Char) : isSeparator (b, c) = false := by simp [isSeparator, hc]
    rw [cutFrom_cons (hsep b), cutFrom_cons (hsep b')]

theorem length_cutAtSeparators (cs : List Char) :
    (cutAtSeparators cs).length = separatorCount cs + 1 := by
  rw [cutAtSeparators, cutFrom, List.length_map, separatorCount]
  induction withBefore none cs with
  | nil => rfl
  | cons x xs ih =>
    rw [List.splitOnP_cons_eq_if_modifyHead, List.countP_cons]
    by_cases hx : isSeparator x = true
    · rw [if_pos hx, if_pos hx, List.length_cons, ih]
    · rw [if_neg hx, if_neg hx, List.length_modifyHead, ih]

/-- The pieces with a dot between each two are the text. -/
theorem intercalate_cutAtSeparators (cs : List Char) :
    List.intercalate ['.'] (cutAtSeparators cs) = cs := by
  suffices h : ∀ before, List.intercalate ['.'] (cutFrom before cs) = cs from h none
  induction cs with
  | nil => simp
  | cons c cs ih =>
    intro before
    obtain ⟨p, ps, hp⟩ := List.exists_cons_of_ne_nil (cutFrom_ne_nil (some c) cs)
    have hrest : List.intercalate ['.'] (p :: ps) = cs := hp ▸ ih (some c)
    cases hsep : isSeparator (before, c) with
    | true =>
      obtain ⟨rfl, hb⟩ : c = '.' ∧ before ≠ some '^' := by simpa [isSeparator] using hsep
      rw [cutFrom_separator hb, hp, List.intercalate_cons_cons, hrest]
      rfl
    | false =>
      rw [cutFrom_cons hsep, hp, consFirst]
      cases ps with
      | nil => simpa using hrest
      | cons q qs =>
        rw [List.intercalate_cons_cons] at hrest ⊢
        rw [List.cons_append, List.cons_append, hrest]

/-! ## The scan -/

theorem unescape_cons {c : Char} {cs : List Char} (h : c = '^' → cs.head? ≠ some '.') :
    unescape (c :: cs) = c :: unescape cs := by
  rw [unescape]
  rintro rest rfl rfl
  exact h rfl rfl

/-- The first piece begins as the text does, unless it is empty. -/
theorem head?_cutFrom_ne {cs p : List Char} {ps : List (List Char)} {before : Option Char}
    (hcs : cs.head? ≠ some '.') (hp : cutFrom before cs = p :: ps) : p.head? ≠ some '.' := by
  cases cs with
  | nil =>
    rw [cutFrom_nil] at hp
    cases hp
    simp
  | cons c cs =>
    have hc : c ≠ '.' := fun hc => hcs (by rw [hc]; rfl)
    obtain ⟨q, qs, hq⟩ := List.exists_cons_of_ne_nil (cutFrom_ne_nil (some c) cs)
    rw [cutFrom_cons (by simp [isSeparator, hc]), hq] at hp
    cases hp
    simpa using hc

theorem map_unescape_consFirst {c : Char} {ps : List (List Char)} (hps : ps ≠ [])
    (h : c = '^' → ∀ p qs, ps = p :: qs → p.head? ≠ some '.') :
    (consFirst c ps).map unescape = consFirst c (ps.map unescape) := by
  obtain ⟨p, qs, rfl⟩ := List.exists_cons_of_ne_nil hps
  rw [consFirst, List.map_cons, unescape_cons fun hc => h hc p qs rfl]
  rfl

/-- The scan cuts at the separators and resolves the escapes of each piece. -/
theorem pieces_eq_map_unescape (cs : List Char) :
    pieces cs = (cutAtSeparators cs).map unescape := by
  suffices h : ∀ before, before ≠ some '^' → pieces cs = (cutFrom before cs).map unescape from
    h none (by simp)
  induction cs using pieces.induct with
  | case1 =>
    intro before _
    rw [cutFrom_nil]
    rfl
  | case2 rest ih =>
    intro before _
    obtain ⟨p, ps, hp⟩ := List.exists_cons_of_ne_nil (cutFrom_ne_nil (some '.') rest)
    rw [pieces, ih (some '.') (by decide), cutFrom_cons (by simp [isSeparator]),
      cutFrom_cons (by simp [isSeparator]), hp]
    rfl
  | case3 rest ih =>
    intro before hb
    rw [pieces_dot, ih (some '.') (by decide), cutFrom_separator hb]
    rfl
  | case4 c rest hescape hdot ih =>
    intro before _
    have hhead : c = '^' → rest.head? ≠ some '.' := by
      intro hc hd
      obtain ⟨ds, rfl⟩ := List.head?_eq_some_iff.1 hd
      exact hescape ds hc rfl
    -- A circumflex here escapes nothing, so what follows is cut as if nothing stood before it.
    have hrest : pieces rest = (cutFrom (some c) rest).map unescape := by
      by_cases hc : c = '^'
      · rw [cutFrom_eq_of_head?_ne (hhead hc) (some c) none, ih none (by simp)]
      · exact ih (some c) (by simpa using hc)
    have hsep : isSeparator (before, c) = false := by
      have hne : (c == '.') = false := beq_false_of_ne hdot
      rw [isSeparator, hne, Bool.false_and]
    rw [pieces, hrest, cutFrom_cons hsep, map_unescape_consFirst (cutFrom_ne_nil _ _)
      fun hc _ _ hp => head?_cutFrom_ne (hhead hc) hp]
    · exact hescape
    · exact hdot

/-! ## Segments -/

/-- A piece that shows no dot has no escapes. -/
theorem eq_of_unescape {p : List Char} (h : '.' ∉ unescape p) : unescape p = p := by
  fun_induction unescape p with
  | case1 => rfl
  | case2 cs => exact absurd (List.mem_cons_self ..) h
  | case3 c cs hescape ih => rw [ih fun hc => h (List.mem_cons_of_mem _ hc)]

theorem unescape_eq_null_iff (p : List Char) : unescape p = ['^', '0'] ↔ p = ['^', '0'] := by
  constructor
  · intro h
    rw [← h]
    exact (eq_of_unescape (by rw [h]; decide)).symm
  · rintro rfl
    rfl

theorem pieceSegment_unescape (p : List Char) : pieceSegment (unescape p) = denotedSegment p := by
  rw [pieceSegment, denotedSegment]
  simp only [unescape_eq_null_iff]

namespace Path

/-- What a written path denotes.  The empty text has no segments.  Any other text is cut at every dot
that no circumflex comes right before; each piece is one segment, null if it is `^0` and otherwise
the text of the piece with its escapes resolved. -/
theorem segments_parse_grammar (text : String) :
    (parse text).segments =
        (if text = "" then [] else (cutAtSeparators text.toList).map denotedSegment) ∧
      (parse text).size = (if text = "" then 0 else separatorCount text.toList + 1) ∧
      List.intercalate ['.'] (cutAtSeparators text.toList) = text.toList := by
  have hsegments : (parse text).segments =
      if text = "" then [] else (cutAtSeparators text.toList).map denotedSegment := by
    split
    · next h => rw [h]; rfl
    · next h =>
      calc (parse text).segments = (pieces text.toList).map pieceSegment := parseSegments_of_ne h
        _ = ((cutAtSeparators text.toList).map unescape).map pieceSegment := by
          rw [pieces_eq_map_unescape]
        _ = (cutAtSeparators text.toList).map denotedSegment := by
          rw [List.map_map]
          exact List.map_congr_left fun p _ => pieceSegment_unescape p
  refine ⟨hsegments, ?_, intercalate_cutAtSeparators _⟩
  rw [size, hsegments]
  split
  · rfl
  · rw [List.length_map, length_cutAtSeparators]

/-- The circumflex before another one escapes nothing, and a text may end in a separator. -/
example : (parse "^^.a.^0.").segments = [some "^.a", none, some ""] := by decide +kernel

end Path

end Dotpath

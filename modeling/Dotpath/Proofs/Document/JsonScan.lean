import Dotpath.Document.Yaml.Token.Stream
import Dotpath.Proofs.Document.JsonQuoted
import Mathlib.Data.List.DropRight

/-!
# Scanning a JSON text

The scanner of YAML texts on the parts of a JSON text: brackets, commas, quoted texts with a colon
behind them or not, and words.  No block is open in such a text and nothing has to be a key
(`Scan.Calm`), so each round of the scan skips a gap and reads one part.  What the scan yields from a
place is what it yields from the place behind the part (`Scan.At.yields_quoted` and the like).
-/

namespace Dotpath

namespace Yaml

/-! ## Gaps -/

/-- A space or a line feed, which separate the parts of an indented JSON text. -/
def isGap (x : Char) : Bool := x == ' ' || x == '\n'

/-- Whether a text is at its end, or goes on with a character that neither separates parts nor
begins a comment. -/
def Inked (rest : List Char) : Prop :=
  rest = [] ∨ ∃ x more, rest = x :: more ∧ InLine x ∧ x ≠ ' ' ∧ x ≠ '#'

section

variable {c : Cursor} {s : Scan} {rest : List Char} {fuel : Nat}

theorem lineBreak_of_inked {rest : List Char} (hc : c.rest = rest) (hrest : Inked rest) :
    c.lineBreak = ([], c) ∧ (c.peek == '#') = false := by
  rcases hrest with rfl | ⟨x, more, rfl, hx, -, hcomment⟩
  · rw [Cursor.lineBreak, Cursor.peek, hc]
    exact ⟨rfl, rfl⟩
  · rw [Cursor.peek_of_rest hc, beq_false_of_ne hcomment]
    exact ⟨Cursor.lineBreak_of_not hc hx.isBreak_eq_false, rfl⟩

/-- What is left after some spaces. -/
theorem rest_skip_spaces (c : Cursor) :
    (c.skip (· == ' ')).rest = c.rest.dropWhile (· == ' ') := by
  have hsplit : c.rest = c.rest.takeWhile (· == ' ') ++ c.rest.dropWhile (· == ' ') :=
    List.takeWhile_append_dropWhile.symm
  exact Cursor.rest_advanceBy hsplit

theorem dropWhile_isGap_dropWhile (cs : List Char) :
    (cs.dropWhile (· == ' ')).dropWhile isGap = cs.dropWhile isGap := by
  induction cs with
  | nil => rfl
  | cons x cs ih =>
    by_cases hx : x = ' '
    · subst hx
      exact ih
    · rw [List.dropWhile_cons, beq_false_of_ne hx, if_neg Bool.false_ne_true]

/-- Spaces and line feeds are skipped. -/
theorem skipSpace_eq (hrest : Inked (s.cursor.rest.dropWhile isGap))
    (hfuel : s.cursor.rest.length < fuel) :
    ∃ c b, Scan.skipSpace fuel s = { s with cursor := c, keyAllowed := s.keyAllowed || b } ∧
      c.rest = s.cursor.rest.dropWhile isGap := by
  induction fuel generalizing s with
  | zero => omega
  | succ fuel ih =>
    have hskip := rest_skip_spaces s.cursor
    have hgap := dropWhile_isGap_dropWhile s.cursor.rest
    have hshort := (List.dropWhile_sublist (· == ' ') (l := s.cursor.rest)).length_le
    have hhead (x : Char) (h : (s.cursor.rest.dropWhile (· == ' ')).head? = some x) : x ≠ ' ' := by
      have := List.head?_dropWhile_not (· == ' ') s.cursor.rest
      rw [h] at this
      simpa using this
    rw [Scan.skipSpace]
    generalize s.cursor.skip (· == ' ') = c at hskip ⊢
    rw [← hskip] at hgap hshort hhead
    by_cases hline : ∃ more, c.rest = '\n' :: more
    · obtain ⟨more, hmore⟩ := hline
      rw [hmore] at hgap hshort
      rw [List.length_cons] at hshort
      have hnext : c.advance.rest = more := Cursor.rest_advance hmore
      have hbreak : c.lineBreak = (['\n'], c.advance) := by
        rw [Cursor.lineBreak, hmore]
        rfl
      rw [Cursor.peek_of_rest hmore, if_neg (by decide), hbreak]
      dsimp only
      have hdrop : (c.advance.rest).dropWhile isGap = s.cursor.rest.dropWhile isGap := by
        rw [hnext, ← hgap]
        rfl
      obtain ⟨c', b, hread, hc'⟩ := ih (s := { s with
        cursor := c.advance
        keyAllowed := s.keyAllowed || s.level == 0 }) (by rw [hdrop]; exact hrest)
        (by rw [hnext]; omega)
      exact ⟨c', _, by rw [hread, Bool.or_assoc], hc'.trans hdrop⟩
    · have hink : c.rest = s.cursor.rest.dropWhile isGap := by
        rw [← hgap]
        cases hrest' : c.rest with
        | nil => rfl
        | cons x more =>
          have hspace : x ≠ ' ' := hhead x (by rw [hrest']; rfl)
          have hfeed : x ≠ '\n' := by
            rintro rfl
            exact hline ⟨more, hrest'⟩
          rw [List.dropWhile_cons, isGap, beq_false_of_ne hspace, beq_false_of_ne hfeed]
          rfl
      obtain ⟨hbreak, hcomment⟩ := lineBreak_of_inked hink hrest
      rw [hcomment, if_neg Bool.false_ne_true, hbreak]
      exact ⟨c, false, by rw [Bool.or_false], hink⟩

/-- Where nothing is to be skipped, nothing changes. -/
theorem skipSpace_of_inked {x : Char} (hc : s.cursor.rest = x :: rest) (hx : InLine x)
    (hspace : x ≠ ' ') (hcomment : x ≠ '#') : Scan.skipSpace (fuel + 1) s = s := by
  have hskip : s.cursor.skip (· == ' ') = s.cursor := by
    rw [Cursor.skip, Cursor.span_of_not (p := fun x => x == ' ') hc (beq_false_of_ne hspace)]
  rw [Scan.skipSpace, hskip, Cursor.peek_of_rest hc, beq_false_of_ne hcomment,
    if_neg Bool.false_ne_true, Cursor.lineBreak_of_not hc hx.isBreak_eq_false]

end

/-! ## Rounds -/

namespace Scan

variable {s s' : Scan} {toks ts : List Token} {level : Nat} {rest : List Char} {x : Char}

/-- Whether the scan of a JSON text is at a place: no block is open, and nothing has to be a key. -/
structure Calm (s : Scan) : Prop where
  indent : s.indent = -1
  starts : ∀ k ∈ s.starts, k.required = false

/-- Whether some tokens have been read between some brackets, and what is left of the text but for
the gap in front of it. -/
structure At (s : Scan) (toks : List Token) (level : Nat) (rest : List Char) : Prop extends
    Calm s where
  tokens : s.tokens = toks
  level : s.level = level
  rest : s.cursor.rest.dropWhile isGap = rest.dropWhile isGap

/-- Whether the scan of a text goes on to some tokens, given fuel for all characters that are
left. -/
def Yields (s : Scan) (ts : List Token) : Prop :=
  ∀ fuel, s.cursor.rest.length < fuel → run fuel s = .ok ts

theorem Calm.dropStarts (hs : s.Calm) (p : KeyStart → Bool) :
    s.dropStarts p = .ok { s with starts := s.starts.filter (!p ·) } := by
  rw [Scan.dropStarts, if_neg]
  rw [List.any_eq_true]
  rintro ⟨k, hk, hp⟩
  rw [hs.starts k hk, Bool.and_false] at hp
  cases hp

theorem closeBlocks_eq {column : Int} (hs : s.indent ≤ column) : s.closeBlocks column = s := by
  unfold closeBlocks
  split
  · rfl
  · unfold closeBlocks.close
    rw [if_neg (by omega)]

/-- The scan without the starts of keys that are too far away. -/
def withoutStale (s : Scan) : Scan :=
  { s with starts := s.starts.filter fun k =>
      !(k.line != s.cursor.line || s.cursor.index - k.index > longestKey) }

theorem Calm.withoutStale (hs : s.Calm) : s.withoutStale.Calm :=
  ⟨hs.indent, fun k hk => hs.starts k (List.mem_of_mem_filter hk)⟩

/-- A round reads the next token after the gap, unless the text is at its end. -/
theorem Calm.run_succ (hs : s.Calm) (hskip : s'.skipSpace (s'.cursor.rest.length + 1) = s)
    (fuel : Nat) :
    run (fuel + 1) s' =
      if s.cursor.rest.isEmpty = true then .ok s.tokens else s.withoutStale.step >>= run fuel := by
  have hstale : s.dropStale = .ok s.withoutStale := hs.dropStarts _
  have hcalm := hs.withoutStale
  have hclose {column : Int} (hcolumn : -1 ≤ column) :
      s.withoutStale.closeBlocks column = s.withoutStale :=
    closeBlocks_eq (hcalm.indent ▸ hcolumn)
  have hend : s.withoutStale.dropStart = .ok _ := hcalm.dropStarts _
  rw [run, hskip, hstale]
  change (if (closeBlocks s.cursor.column s.withoutStale).cursor.rest.isEmpty = true then
    (closeBlocks (-1) (closeBlocks s.cursor.column s.withoutStale)).dropStart >>= _
    else (closeBlocks s.cursor.column s.withoutStale).step >>= run fuel) = _
  rw [hclose (by omega), hclose (Int.le_refl _), hend]
  rfl

/-- What is next after the gap. -/
theorem At.run_succ (hs : s.At toks level rest) (hrest : Inked (rest.dropWhile isGap)) :
    ∃ s₁ : Scan, s₁.At toks level rest ∧ s₁.cursor.rest = rest.dropWhile isGap ∧
      (s.keyAllowed = true → s₁.keyAllowed = true) ∧
      ∀ fuel, run (fuel + 1) s =
        if (rest.dropWhile isGap).isEmpty = true then .ok toks else s₁.step >>= run fuel := by
  rw [← hs.rest] at hrest
  obtain ⟨c, b, hskip, hc⟩ := skipSpace_eq hrest (Nat.lt_succ_self _)
  rw [hs.rest] at hc
  have hcalm : ({ s with cursor := c, keyAllowed := s.keyAllowed || b } : Scan).Calm :=
    ⟨hs.indent, hs.starts⟩
  refine ⟨_, ⟨hcalm.withoutStale, hs.tokens, hs.level, ?_⟩, hc, fun h => ?_, fun fuel => ?_⟩
  · exact (congrArg _ hc).trans (List.dropWhile_idempotent _ _)
  · exact Bool.or_eq_true_iff.2 (.inl h)
  · rw [hcalm.run_succ hskip, hc, ← hs.tokens]

/-- A scan yields what it yields after the next token. -/
theorem At.yields {more : List Char} (hs : s.At toks level rest)
    (hrest : rest.dropWhile isGap = x :: more) (hx : InLine x) (hspace : x ≠ ' ')
    (hcomment : x ≠ '#')
    (hstep : ∀ s₁ : Scan, s₁.At toks level rest → s₁.cursor.rest = x :: more →
      (s.keyAllowed = true → s₁.keyAllowed = true) →
      ∃ s', s₁.step = .ok s' ∧ s'.cursor.rest.length ≤ more.length ∧ s'.Yields ts) :
    s.Yields ts := by
  intro fuel hfuel
  obtain ⟨fuel, rfl⟩ := Nat.exists_eq_succ_of_ne_zero (Nat.ne_zero_of_lt hfuel)
  obtain ⟨s₁, hs₁, hc, hkey, hrun⟩ :=
    hs.run_succ (hrest ▸ .inr ⟨x, more, rfl, hx, hspace, hcomment⟩)
  rw [hrest] at hc hrun
  obtain ⟨s', hs', hshort, hyields⟩ := hstep s₁ hs₁ hc hkey
  have hlength := (List.dropWhile_sublist isGap (l := s.cursor.rest)).length_le
  rw [hs.rest, hrest, List.length_cons] at hlength
  rw [hrun, List.isEmpty_cons, if_neg Bool.false_ne_true, hs']
  exact hyields fuel (by omega)

/-- At the end of the text the tokens are all there are. -/
theorem At.yields_nil (hs : s.At toks level rest) (hrest : rest.dropWhile isGap = []) :
    s.Yields toks := by
  intro fuel hfuel
  obtain ⟨fuel, rfl⟩ := Nat.exists_eq_succ_of_ne_zero (Nat.ne_zero_of_lt hfuel)
  obtain ⟨s₁, -, -, -, hrun⟩ := hs.run_succ (hrest ▸ .inl rfl)
  rw [hrun, hrest, List.isEmpty_nil, if_pos rfl]

/-! ## Steps -/

/-- A key may begin wherever one is noted, but none has to. -/
theorem Calm.noteStart (hs : s.Calm) : ∃ starts, s.noteStart = .ok { s with starts } ∧
    (∀ k ∈ starts, k.required = false) ∧ (s.keyAllowed = true → ∃ others,
      starts = ⟨s.level, s.tokens.length, false, s.cursor.index, s.cursor.line,
        s.cursor.column⟩ :: others) := by
  by_cases hkey : s.keyAllowed = true
  · have hnew : (s.level == 0 && s.indent == (s.cursor.column : Int)) = false := by
      have hcolumn : s.indent ≠ (s.cursor.column : Int) := by
        rw [hs.indent]
        omega
      rw [beq_false_of_ne hcolumn, Bool.and_false]
    have hdrop : s.dropStart = .ok _ := hs.dropStarts fun k => k.level == s.level
    refine ⟨_ :: s.starts.filter fun k => !(k.level == s.level), ?_, ?_, fun _ => ⟨_, rfl⟩⟩
    · rw [Scan.noteStart, if_neg (by rw [hkey]; decide), hdrop, ← hnew]
      rfl
    · exact List.forall_mem_cons.2 ⟨rfl, fun k hk => hs.starts k (List.mem_of_mem_filter hk)⟩
  · exact ⟨s.starts, by rw [Scan.noteStart, if_pos (by simpa using hkey)], hs.starts,
      fun h => absurd h hkey⟩

section

variable {more : List Char} {t : Token}

theorem At.openBracket (hs : s.At toks level rest) (hc : s.cursor.rest = x :: more) :
    ∃ s', s.openBracket t = .ok s' ∧ s'.At (toks ++ [t]) (level + 1) more ∧
      s'.cursor.rest = more ∧ s'.keyAllowed = true := by
  obtain ⟨starts, hnote, hcalm, -⟩ := hs.toCalm.noteStart
  have hrest := Cursor.rest_advance hc
  have hopen : s.openBracket t = .ok { s with
      starts
      tokens := s.tokens ++ [t]
      level := s.level + 1
      keyAllowed := true
      cursor := s.cursor.advance } := by
    rw [Scan.openBracket, hnote]
    rfl
  exact ⟨_, hopen, ⟨⟨hs.indent, hcalm⟩, congrArg (· ++ [t]) hs.tokens,
    congrArg (· + 1) hs.level, congrArg _ hrest⟩, hrest, rfl⟩

theorem At.closeBracket (hs : s.At toks (level + 1) rest) (hc : s.cursor.rest = x :: more) :
    ∃ s', s.closeBracket t = .ok s' ∧ s'.At (toks ++ [t]) level more ∧ s'.cursor.rest = more := by
  have hrest := Cursor.rest_advance hc
  have hdrop : s.dropStart = .ok _ := hs.dropStarts fun k => k.level == s.level
  have hclose : s.closeBracket t = .ok { s with
      starts := s.starts.filter fun k => !(k.level == s.level)
      tokens := s.tokens ++ [t]
      level := s.level - 1
      keyAllowed := false
      cursor := s.cursor.advance } := by
    rw [Scan.closeBracket, hdrop]
    change (if s.level = 0 then _ else _) = _
    rw [if_neg (by rw [hs.level]; omega)]
    rfl
  exact ⟨_, hclose, ⟨⟨hs.indent, fun k hk => hs.starts k (List.mem_of_mem_filter hk)⟩,
    congrArg (· ++ [t]) hs.tokens, congrArg (· - 1) hs.level, congrArg _ hrest⟩, hrest⟩

/-- A scalar is read, and a key may begin with it. -/
theorem At.emitPart (read : Cursor → Except Fault (Token × Cursor)) {c : Cursor}
    (hs : s.At toks level rest) (hread : read s.cursor = .ok (t, c)) :
    ∃ s', s.emitPart read = .ok s' ∧ s'.At (toks ++ [t]) level c.rest ∧ s'.cursor = c ∧
      (s.keyAllowed = true → ∃ others, s'.starts = ⟨level, toks.length, false, s.cursor.index,
        s.cursor.line, s.cursor.column⟩ :: others) := by
  obtain ⟨starts, hnote, hcalm, hstart⟩ := hs.toCalm.noteStart
  have hpart : s.emitPart read = .ok { s with
      starts
      tokens := s.tokens ++ [t]
      keyAllowed := false
      cursor := c } := by
    rw [Scan.emitPart, hnote]
    change (read s.cursor >>= _) = _
    rw [hread]
    rfl
  exact ⟨_, hpart, ⟨⟨hs.indent, hcalm⟩, congrArg (· ++ [t]) hs.tokens, hs.level, rfl⟩, rfl,
    hs.level ▸ hs.tokens ▸ hstart⟩

theorem step_of_comma (hc : s.cursor.rest = ',' :: more) :
    s.step = s.dropStart >>= fun s' =>
      .ok { s'.emit .flowEntry with keyAllowed := true, cursor := s.cursor.advance } := by
  simp [step, Cursor.isMark, Cursor.peek_of_rest hc]
  rfl

theorem At.comma (hs : s.At toks level rest) (hc : s.cursor.rest = ',' :: more) :
    ∃ s', s.step = .ok s' ∧ s'.At (toks ++ [.flowEntry]) level more ∧ s'.cursor.rest = more ∧
      s'.keyAllowed = true := by
  have hrest := Cursor.rest_advance hc
  have hdrop : s.dropStart = .ok _ := hs.dropStarts fun k => k.level == s.level
  have hstep : s.step = .ok { s with
      starts := s.starts.filter fun k => !(k.level == s.level)
      tokens := s.tokens ++ [.flowEntry]
      keyAllowed := true
      cursor := s.cursor.advance } := by
    rw [step_of_comma hc, hdrop]
    rfl
  exact ⟨_, hstep, ⟨⟨hs.indent, fun k hk => hs.starts k (List.mem_of_mem_filter hk)⟩,
    congrArg (· ++ [.flowEntry]) hs.tokens, hs.level, congrArg _ hrest⟩, hrest, rfl⟩

theorem step_of_flowSequence (hc : s.cursor.rest = '[' :: more) :
    s.step = s.openBracket .flowSequence := by
  simp [step, Cursor.isMark, Cursor.peek_of_rest hc]

theorem step_of_flowMapping (hc : s.cursor.rest = '\x7b' :: more) :
    s.step = s.openBracket .flowMapping := by
  simp [step, Cursor.isMark, Cursor.peek_of_rest hc]

theorem step_of_flowSequenceEnd (hc : s.cursor.rest = ']' :: more) :
    s.step = s.closeBracket .flowSequenceEnd := by
  simp [step, Cursor.isMark, Cursor.peek_of_rest hc]

theorem step_of_flowMappingEnd (hc : s.cursor.rest = '\x7d' :: more) :
    s.step = s.closeBracket .flowMappingEnd := by
  simp [step, Cursor.isMark, Cursor.peek_of_rest hc]

theorem step_of_quote (hc : s.cursor.rest = '"' :: more) :
    s.step = s.emitPart fun c => do
      let r ← quotedScalar c
      return (.scalar r.1 false, r.2) := by
  simp [step, Cursor.isMark, Cursor.peek_of_rest hc]

theorem step_of_colon (hc : s.cursor.rest = ':' :: more) (hlevel : s.level ≠ 0) :
    s.step = s.emitValue := by
  simp [step, Cursor.isMark, Cursor.peek_of_rest hc, hlevel]

/-- A value's sign makes a key of what began last between the same brackets. -/
theorem emitValue_eq {k : KeyStart} {others : List KeyStart} (hlevel : s.level ≠ 0)
    (hstarts : s.starts = k :: others) (hk : k.level = s.level) :
    s.emitValue = .ok { s with
      starts := s.starts.filter (·.level != s.level)
      tokens := s.tokens.take k.position ++ .key :: s.tokens.drop k.position ++ [.value]
      keyAllowed := false
      cursor := s.cursor.advance } := by
  have hfind : s.starts.find? (fun k => k.level == s.level) = some k := by
    rw [hstarts, List.find?_cons_of_pos]
    exact beq_iff_eq.2 hk
  rw [emitValue, hfind]
  dsimp only [insert]
  rw [if_pos (bne_iff_ne.2 hlevel)]
  rfl

/-! ## Commas and brackets -/

/-- A comma separates parts. -/
theorem At.yields_comma (hs : s.At toks level rest) (hrest : rest.dropWhile isGap = ',' :: more)
    (hnext : ∀ s' : Scan, s'.At (toks ++ [.flowEntry]) level more → s'.keyAllowed = true →
      s'.Yields ts) : s.Yields ts := by
  refine hs.yields hrest (by decide) (by decide) (by decide) fun s₁ hs₁ hc _ => ?_
  obtain ⟨s', hstep, hs', hrest', hkey⟩ := hs₁.comma hc
  exact ⟨s', hstep, hrest' ▸ Nat.le_refl _, hnext s' hs' hkey⟩

/-- A bracket opens a collection. -/
theorem At.yields_open (hs : s.At toks level rest) (hrest : rest.dropWhile isGap = x :: more)
    (hx : x = '[' ∧ t = .flowSequence ∨ x = '\x7b' ∧ t = .flowMapping)
    (hnext : ∀ s' : Scan, s'.At (toks ++ [t]) (level + 1) more → s'.keyAllowed = true →
      s'.Yields ts) : s.Yields ts := by
  have hline : InLine x ∧ x ≠ ' ' ∧ x ≠ '#' := by
    rcases hx with ⟨rfl, -⟩ | ⟨rfl, -⟩ <;> decide
  refine hs.yields hrest hline.1 hline.2.1 hline.2.2 fun s₁ hs₁ hc _ => ?_
  obtain ⟨s', hopen, hs', hrest', hkey⟩ := hs₁.openBracket (t := t) hc
  refine ⟨s', ?_, hrest' ▸ Nat.le_refl _, hnext s' hs' hkey⟩
  rcases hx with ⟨rfl, rfl⟩ | ⟨rfl, rfl⟩
  · rw [step_of_flowSequence hc, hopen]
  · rw [step_of_flowMapping hc, hopen]

/-- A bracket closes a collection. -/
theorem At.yields_close (hs : s.At toks (level + 1) rest) (hrest : rest.dropWhile isGap = x :: more)
    (hx : x = ']' ∧ t = .flowSequenceEnd ∨ x = '\x7d' ∧ t = .flowMappingEnd)
    (hnext : ∀ s' : Scan, s'.At (toks ++ [t]) level more → s'.Yields ts) : s.Yields ts := by
  have hline : InLine x ∧ x ≠ ' ' ∧ x ≠ '#' := by
    rcases hx with ⟨rfl, -⟩ | ⟨rfl, -⟩ <;> decide
  refine hs.yields hrest hline.1 hline.2.1 hline.2.2 fun s₁ hs₁ hc _ => ?_
  obtain ⟨s', hclose, hs', hrest'⟩ := hs₁.closeBracket (t := t) hc
  refine ⟨s', ?_, hrest' ▸ Nat.le_refl _, hnext s' hs'⟩
  rcases hx with ⟨rfl, rfl⟩ | ⟨rfl, rfl⟩
  · rw [step_of_flowSequenceEnd hc, hclose]
  · rw [step_of_flowMappingEnd hc, hclose]

/-! ## Quoted texts -/

/-- A quoted text is read as a scalar that is not plain. -/
theorem At.step_quoted {text : String} (hs : s.At toks level rest)
    (hc : s.cursor.rest = (Json.quoted text).toList ++ more) :
    ∃ s', s.step = .ok s' ∧ s'.At (toks ++ [.scalar (Text.halves text) false]) level more ∧
      s'.cursor = s.cursor.advanceBy (Json.quoted text).toList.length ∧
      (s.keyAllowed = true → ∃ others, s'.starts = ⟨level, toks.length, false, s.cursor.index,
        s.cursor.line, s.cursor.column⟩ :: others) := by
  have hopen : ∃ cs, s.cursor.rest = '"' :: cs := ⟨_, by rw [hc, toList_quoted_eq]; rfl⟩
  obtain ⟨cs, hopen⟩ := hopen
  obtain ⟨s', hpart, hs', hcursor, hstart⟩ := hs.emitPart (t := .scalar (Text.halves text) false)
    (fun c => do
      let r ← quotedScalar c
      return (.scalar r.1 false, r.2)) (by rw [quotedScalar_quoted hc]; rfl)
  rw [Cursor.rest_advanceBy hc] at hs'
  exact ⟨s', by rw [step_of_quote hopen, hpart], hs', hcursor, hstart⟩

theorem At.yields_quoted {text : String} (hs : s.At toks level rest)
    (hrest : rest.dropWhile isGap = (Json.quoted text).toList ++ more)
    (hnext : ∀ s' : Scan, s'.At (toks ++ [.scalar (Text.halves text) false]) level more →
      s'.Yields ts) : s.Yields ts := by
  have hquoted := toList_quoted_eq text
  rw [hquoted, List.cons_append] at hrest
  refine hs.yields hrest (by decide) (by decide) (by decide) fun s₁ hs₁ hc _ => ?_
  rw [← List.cons_append, ← hquoted] at hc
  obtain ⟨s', hstep, hs', hcursor, -⟩ := hs₁.step_quoted hc
  refine ⟨s', hstep, ?_, hnext s' hs'⟩
  rw [hcursor, Cursor.rest_advanceBy hc, List.length_append]
  exact Nat.le_add_left _ _

/-- A colon makes a key of the scalar in front of it, which began near by. -/
theorem At.yields_colon {k : KeyStart} {others : List KeyStart}
    (hs : s.At (toks ++ [t]) (level + 1) rest) (hc : s.cursor.rest = ':' :: more)
    (hstarts : s.starts = k :: others) (hk : k.level = level + 1) (hposition : k.position = toks.length)
    (hline : k.line = s.cursor.line) (hnear : s.cursor.index - k.index ≤ longestKey)
    (hnext : ∀ s' : Scan, s'.At (toks ++ [.key, t, .value]) (level + 1) more → s'.Yields ts) :
    s.Yields ts := by
  intro fuel hfuel
  obtain ⟨fuel, rfl⟩ := Nat.exists_eq_succ_of_ne_zero (Nat.ne_zero_of_lt hfuel)
  have hlevel : s.withoutStale.level = level + 1 := hs.level
  have hrest := Cursor.rest_advance hc
  -- The start is not given up before the colon is read.
  have hkept : ∃ others', s.withoutStale.starts = k :: others' := by
    refine ⟨_, (congrArg (List.filter _) hstarts).trans (List.filter_cons_of_pos ?_)⟩
    rw [hline, bne_self_eq_false, Bool.false_or, Bool.not_eq_true', decide_eq_false_iff_not]
    omega
  obtain ⟨others', hothers⟩ := hkept
  have htokens : s.withoutStale.tokens.take k.position ++ .key ::
      s.withoutStale.tokens.drop k.position ++ [.value] = toks ++ [.key, t, .value] := by
    have h : s.withoutStale.tokens = toks ++ [t] := hs.tokens
    rw [h, hposition, List.take_left, List.drop_left, List.append_assoc]
    rfl
  obtain ⟨s', hvalue, hs', hrest'⟩ : ∃ s', s.withoutStale.emitValue = .ok s' ∧
      s'.At (toks ++ [.key, t, .value]) (level + 1) more ∧ s'.cursor.rest = more :=
    ⟨_, emitValue_eq (by omega) hothers (hk.trans hlevel.symm),
      ⟨⟨hs.indent, fun k hk => hs.toCalm.withoutStale.starts k (List.mem_of_mem_filter hk)⟩,
        htokens, hlevel, congrArg _ hrest⟩, hrest⟩
  rw [hs.toCalm.run_succ (skipSpace_of_inked hc (by decide) (by decide) (by decide)), hc,
    List.isEmpty_cons, if_neg Bool.false_ne_true, step_of_colon (s := s.withoutStale) hc (by omega),
    hvalue]
  refine hnext s' hs' fuel ?_
  rw [hc, List.length_cons] at hfuel
  rw [hrest']
  omega

/-- A quoted text before a colon is a key, unless it is too long. -/
theorem At.yields_key {name : String} (hs : s.At toks (level + 1) rest)
    (hkey : s.keyAllowed = true) (hshort : (Json.quoted name).toList.length ≤ longestKey)
    (hrest : rest.dropWhile isGap = (Json.quoted name).toList ++ ':' :: more)
    (hnext : ∀ s' : Scan, s'.At (toks ++ [.key, .scalar (Text.halves name) false, .value])
      (level + 1) more → s'.Yields ts) : s.Yields ts := by
  have hquoted := toList_quoted_eq name
  rw [hquoted, List.cons_append] at hrest
  refine hs.yields hrest (by decide) (by decide) (by decide) fun s₁ hs₁ hc hkey₁ => ?_
  rw [← List.cons_append, ← hquoted] at hc
  obtain ⟨s₂, hstep, hs₂, hcursor, hstart⟩ := hs₁.step_quoted hc
  obtain ⟨others, hstarts⟩ := hstart (hkey₁ hkey)
  have hrest₂ : s₂.cursor.rest = ':' :: more := by rw [hcursor, Cursor.rest_advanceBy hc]
  rw [Cursor.advanceBy_of_inLine hc (inLine_quoted name)] at hcursor
  refine ⟨s₂, hstep, ?_, ?_⟩
  · rw [hrest₂, List.length_append]
    exact Nat.le_add_left _ _
  · refine hs₂.yields_colon hrest₂ hstarts rfl rfl (by rw [hcursor]) ?_ hnext
    rw [hcursor]
    exact (Nat.add_sub_cancel_left ..).le.trans hshort

end

end Scan

/-! ## Words and numbers -/

/-- A character of a word or a number. -/
def isWordChar (x : Char) : Bool := x.isAlphanum || x == '.' || x == '+' || x == '-'

/-- Whether some characters are a word or a number: a letter or a digit, perhaps behind a minus sign,
and more of the like. -/
def IsWord (cs : List Char) : Prop :=
  ∃ x more, x.isAlphanum = true ∧ (∀ y ∈ more, isWordChar y = true) ∧
    (cs = x :: more ∨ cs = '-' :: x :: more)

theorem inLine_of_isAlphanum {x : Char} (hx : x.isAlphanum = true) : InLine x := by
  change (decide (65 ≤ x.val ∧ x.val ≤ 90) || decide (97 ≤ x.val) && decide (x.val ≤ 122) ||
    decide (48 ≤ x.val) && decide (x.val ≤ 57)) = true at hx
  simp only [Bool.or_eq_true, Bool.and_eq_true, decide_eq_true_eq, UInt32.le_iff_toNat_le] at hx
  change ((65 ≤ x.toNat ∧ x.toNat ≤ 90) ∨ (97 ≤ x.toNat ∧ x.toNat ≤ 122)) ∨
    (48 ≤ x.toNat ∧ x.toNat ≤ 57) at hx
  rw [InLine]
  omega

theorem inLine_of_isWordChar {x : Char} (hx : isWordChar x = true) : InLine x := by
  simp only [isWordChar, Bool.or_eq_true, beq_iff_eq] at hx
  rcases hx with ((hx | rfl) | rfl) | rfl
  · exact inLine_of_isAlphanum hx
  all_goals decide

section

variable {c : Cursor} {s : Scan} {cs rest : List Char}

theorem IsWord.forall_isWordChar (hcs : IsWord cs) : ∀ x ∈ cs, isWordChar x = true := by
  obtain ⟨x, more, hx, hmore, rfl | rfl⟩ := hcs
  · exact List.forall_mem_cons.2 ⟨by rw [isWordChar, hx]; rfl, hmore⟩
  · exact List.forall_mem_cons.2 ⟨rfl, List.forall_mem_cons.2 ⟨by rw [isWordChar, hx]; rfl, hmore⟩⟩

theorem IsWord.exists_head (hcs : IsWord cs) :
    ∃ x more, cs = x :: more ∧ InLine x ∧ x ≠ ' ' ∧ x ≠ '#' := by
  obtain ⟨x, more, hx, -, rfl | rfl⟩ := hcs
  · refine ⟨x, _, rfl, inLine_of_isAlphanum hx, ?_, ?_⟩ <;>
    · rintro rfl
      cases hx
  · exact ⟨'-', _, rfl, by decide, by decide, by decide⟩

/-- Whether a part of an indented JSON text ends in front of a text: there is a comma, or a closing
bracket in the next line. -/
inductive EndsPart : List Char → Prop
  | comma (more : List Char) : EndsPart (',' :: more)
  | bracket {x : Char} (n : Nat) (more : List Char) (hx : x = ']' ∨ x = '\x7d') :
    EndsPart ('\n' :: (List.replicate n ' ' ++ x :: more))

theorem plainLength_append (hcs : ∀ x ∈ cs, isWordChar x = true) (hrest : EndsPart rest) :
    plainLength true (cs ++ rest) = cs.length := by
  induction cs with
  | nil =>
    cases hrest <;> rfl
  | cons x cs ih =>
    obtain ⟨hx, hcs⟩ := List.forall_mem_cons.1 hcs
    have hne (y : Char) (hy : isWordChar y = false) : (x == y) = false := by
      refine beq_false_of_ne ?_
      rintro rfl
      rw [hx] at hy
      cases hy
    have hblank : isBlankOrEnd x = false :=
      (inLine_of_isWordChar hx).isBlankOrEnd_eq_false (ne_of_beq_false (hne ' ' rfl))
    rw [List.cons_append, plainLength]
    simp [hblank, hne ':' rfl, hne ',' rfl, hne '[' rfl, hne ']' rfl, hne '\x7b' rfl,
      hne '\x7d' rfl, hne '?' rfl, ih hcs]

/-- The spaces before a closing bracket are skipped. -/
theorem plainBreaks_replicate {x : Char} {n fuel : Nat} (hx : InLine x) (hspace : x ≠ ' ')
    (hc : c.rest = List.replicate n ' ' ++ x :: rest) (hfuel : n < fuel) :
    plainBreaks [] fuel c = (some [], c.advanceBy n) := by
  induction n generalizing c fuel with
  | zero =>
    obtain ⟨fuel, rfl⟩ := Nat.exists_eq_succ_of_ne_zero (Nat.ne_zero_of_lt hfuel)
    rw [List.replicate_zero, List.nil_append] at hc
    rw [plainBreaks, Cursor.peek_of_rest hc, beq_false_of_ne hspace, if_neg Bool.false_ne_true,
      Cursor.lineBreak_of_not hc hx.isBreak_eq_false]
    rfl
  | succ n ih =>
    obtain ⟨fuel, rfl⟩ := Nat.exists_eq_succ_of_ne_zero (Nat.ne_zero_of_lt hfuel)
    rw [List.replicate_succ, List.cons_append] at hc
    rw [plainBreaks, Cursor.peek_of_rest hc, beq_self_eq_true, if_pos rfl,
      ih (Cursor.rest_advance hc) (by omega)]
    rfl

theorem isAnyMark_of_ne {x : Char} (hc : c.rest = x :: rest) (hdash : x ≠ '-') (hdot : x ≠ '.') :
    c.isAnyMark = false := by
  rw [Cursor.isAnyMark, Cursor.isMark, Cursor.isMark, Cursor.peek_of_rest hc, beq_false_of_ne hdash,
    beq_false_of_ne hdot]
  rfl

/-- What follows a plain scalar ends it, and at most a gap is read with it. -/
theorem plainSpaces_of_endsPart (hrest : EndsPart c.rest) :
    ∃ spaces ended c', plainSpaces c = (spaces, ended, c') ∧
      (spaces = [] ∨ ∃ x more, c'.rest = x :: more ∧ (x = ']' ∨ x = '\x7d')) ∧
      c'.rest.dropWhile isGap = c.rest.dropWhile isGap ∧ c'.rest.length ≤ c.rest.length := by
  generalize hc : c.rest = rest at hrest
  cases hrest with
  | comma more =>
    refine ⟨[], false, c, ?_, .inl rfl, by rw [hc], by rw [hc]⟩
    rw [plainSpaces, Cursor.span_of_not (p := (· == ' ')) hc (by decide)]
    dsimp only
    rw [Cursor.lineBreak_of_not hc (by decide)]
  | @bracket x n more hx =>
    have hnext := Cursor.rest_advance hc
    have hbreak : c.lineBreak = (['\n'], c.advance) := by
      rw [Cursor.lineBreak, hc]
      rfl
    have hline : InLine x ∧ x ≠ ' ' ∧ x ≠ '-' ∧ x ≠ '.' := by
      rcases hx with rfl | rfl <;> decide
    have hmark : c.advance.isAnyMark = false := by
      cases n with
      | zero => exact isAnyMark_of_ne hnext hline.2.2.1 hline.2.2.2
      | succ n => exact isAnyMark_of_ne (x := ' ') hnext (by decide) (by decide)
    have hskipped : (c.advance.advanceBy n).rest = x :: more := by
      rw [← List.length_replicate (n := n) (a := ' '), Cursor.rest_advanceBy hnext]
    refine ⟨[' '], true, c.advance.advanceBy n, ?_, .inr ⟨x, more, hskipped, hx⟩, ?_, ?_⟩
    · rw [plainSpaces, Cursor.span_of_not (p := (· == ' ')) hc (by decide)]
      dsimp only
      rw [hbreak]
      dsimp only
      rw [hmark, if_neg Bool.false_ne_true, plainBreaks_replicate hline.1 hline.2.1 hnext]
      · rfl
      · rw [hnext, List.length_append, List.length_replicate, List.length_cons]
        omega
    · have hgap : ∀ y ∈ '\n' :: List.replicate n ' ', isGap y = true :=
        List.forall_mem_cons.2 ⟨rfl, fun y hy => List.eq_of_mem_replicate hy ▸ rfl⟩
      rw [hskipped, ← List.cons_append, List.dropWhile_append_of_pos hgap]
    · rw [hskipped, List.length_cons, List.length_cons, List.length_append, List.length_cons]
      omega

/-- A word is a plain scalar. -/
theorem plainScalar_of_isWord (outer : Int) (hcs : IsWord cs) (hrest : EndsPart rest)
    (hc : c.rest = cs ++ rest) :
    ∃ ended c', plainScalar true outer c = ((String.ofList cs, ended), c') ∧
      c'.rest.dropWhile isGap = rest.dropWhile isGap ∧ c'.rest.length ≤ rest.length := by
  have hbehind := Cursor.rest_advanceBy hc
  obtain ⟨spaces, ended, c', hspaces, hend, hgap, hlength⟩ :=
    plainSpaces_of_endsPart (c := c.advanceBy cs.length) (hbehind ▸ hrest)
  rw [hbehind] at hgap hlength
  obtain ⟨x, cs', hx, -, -, hcomment⟩ := hcs.exists_head
  have hfirst : c.rest = x :: (cs' ++ rest) := by rw [hc, hx, List.cons_append]
  have hsome : (cs.length == 0) = false := by rw [hx]; rfl
  refine ⟨ended, c', ?_, hgap, hlength⟩
  rw [plainScalar, plainPieces, Cursor.peek_of_rest hfirst, beq_false_of_ne hcomment,
    if_neg Bool.false_ne_true, hc, plainLength_append hcs.forall_isWordChar hrest, List.take_left,
    hspaces, hsome, if_neg Bool.false_ne_true]
  rcases hend with rfl | ⟨y, more', hy, hbracket⟩
  · rfl
  · -- Behind a gap there is a closing bracket, where no other piece begins.
    have hempty : plainLength true c'.rest = 0 := by
      rw [hy]
      rcases hbracket with rfl | rfl <;> rfl
    have hlast (acc : List Char) (fuel : Nat) :
        plainPieces true (outer + 1) acc spaces ended (fuel + 1) c' = (acc, ended, c') := by
      rw [plainPieces, hempty, ite_self]
      rfl
    rw [← hc, hfirst, List.length_cons]
    dsimp only
    rw [hlast, ite_self]
    rfl

namespace Scan

theorem step_of_beginsPlain {x : Char} {more : List Char} (hlevel : s.level ≠ 0)
    (hc : s.cursor.rest = x :: more) (hplain : s.beginsPlain = true)
    (hsigns : x ∉ "%.[]\x7b\x7d,?:*&!|>'\"".toList)
    (hdash : x = '-' → isBlankOrEnd (s.cursor.peekAt 1) = false ∧ s.cursor.peekAt 1 ≠ '-') :
    s.step = s.noteStart >>= fun s₁ =>
      let r := plainScalar true s₁.indent s.cursor
      .ok { s₁.emit (.scalar r.1.1 true) with keyAllowed := r.1.2, cursor := r.2 } := by
  have hne (y : Char) (hy : y ∈ "%.[]\x7b\x7d,?:*&!|>'\"".toList) : (x == y) = false :=
    beq_false_of_ne (ne_of_mem_of_not_mem hy hsigns).symm
  have hmark : s.cursor.isMark '-' = false := by
    rw [Cursor.isMark, Cursor.peek_of_rest hc]
    by_cases hx : x = '-'
    · rw [beq_false_of_ne (hdash hx).2, Bool.and_false]
      rfl
    · rw [beq_false_of_ne hx]
      rfl
  have hentry : (x == '-' && isBlankOrEnd (s.cursor.peekAt 1)) = false := by
    by_cases hx : x = '-'
    · rw [(hdash hx).1, Bool.and_false]
    · rw [beq_false_of_ne hx]
      rfl
  have hdots : s.cursor.isMark '.' = false := by
    rw [Cursor.isMark, Cursor.peek_of_rest hc, hne '.' (by decide)]
    rfl
  rw [step]
  simp only [Cursor.peek_of_rest hc, hmark, hdots, hentry, hplain, hne '%' (by decide),
    hne '[' (by decide), hne ']' (by decide), hne '\x7b' (by decide), hne '\x7d' (by decide),
    hne ',' (by decide), hne '?' (by decide), hne ':' (by decide), hne '*' (by decide),
    hne '&' (by decide), hne '!' (by decide), hne '|' (by decide), hne '>' (by decide),
    hne '\'' (by decide), hne '"' (by decide), bne_iff_ne.2 hlevel, Bool.and_false, Bool.false_and,
    Bool.false_or, if_true, Bool.false_eq_true, if_false]
  rfl

theorem not_mem_of_isAlphanum {x : Char} {signs : List Char}
    (hsigns : signs.all (!·.isAlphanum) = true) (hx : x.isAlphanum = true) : x ∉ signs := by
  intro hmem
  have hnot := List.all_eq_true.1 hsigns x hmem
  rw [hx] at hnot
  cases hnot

/-- A word is nothing but a plain scalar. -/
theorem step_of_isWord (hlevel : s.level ≠ 0) (hcs : IsWord cs) (hc : s.cursor.rest = cs ++ rest) :
    s.step = s.noteStart >>= fun s₁ =>
      let r := plainScalar true s₁.indent s.cursor
      .ok { s₁.emit (.scalar r.1.1 true) with keyAllowed := r.1.2, cursor := r.2 } := by
  obtain ⟨x, more, hx, -, hword⟩ := hcs
  have hline := inLine_of_isAlphanum hx
  have hne {y : Char} (hy : y.isAlphanum = false) : x ≠ y := by
    rintro rfl
    rw [hx] at hy
    cases hy
  have hblank : isBlankOrEnd x = false := hline.isBlankOrEnd_eq_false (hne rfl)
  rcases hword with rfl | rfl
  · have hcontains : "-?:,[]\x7b\x7d#&*!|>'\"%@\x60".toList.contains x = false := by
      rw [List.contains_eq_mem, decide_eq_false_iff_not]
      exact not_mem_of_isAlphanum (by decide) hx
    have hplain : s.beginsPlain = true := by
      rw [beginsPlain, Cursor.peek_of_rest hc, hblank, hcontains]
      rfl
    exact step_of_beginsPlain hlevel hc hplain (not_mem_of_isAlphanum (by decide) hx)
      fun hdash => absurd hdash (hne rfl)
  · have hpeek : s.cursor.peekAt 1 = x := by
      rw [Cursor.peekAt_of_rest hc]
      rfl
    have hplain : s.beginsPlain = true := by
      rw [beginsPlain, Cursor.peek_of_rest hc, hpeek, hblank]
      rfl
    exact step_of_beginsPlain hlevel hc hplain (by decide) fun _ => hpeek ▸ ⟨hblank, hne rfl⟩

/-- A word is read as a plain scalar. -/
theorem At.yields_word {toks ts : List Token} {level : Nat} {more : List Char}
    (hs : s.At toks (level + 1) rest) (hcs : IsWord cs) (hmore : EndsPart more)
    (hrest : rest.dropWhile isGap = cs ++ more)
    (hnext : ∀ s' : Scan, s'.At (toks ++ [.scalar (String.ofList cs) true]) (level + 1) more →
      s'.Yields ts) : s.Yields ts := by
  obtain ⟨x, cs', hx, hline, hspace, hcomment⟩ := hcs.exists_head
  refine hs.yields (by rw [hrest, hx, List.cons_append]) hline hspace hcomment fun s₁ hs₁ hc _ => ?_
  rw [← List.cons_append, ← hx] at hc
  have hlevel : s₁.level ≠ 0 := by
    rw [hs₁.level]
    omega
  obtain ⟨starts, hnote, hcalm, -⟩ := hs₁.toCalm.noteStart
  obtain ⟨ended, c', hread, hgap, hlength⟩ := plainScalar_of_isWord s₁.indent hcs hmore hc
  obtain ⟨s', hstep, hs', hcursor⟩ : ∃ s', s₁.step = .ok s' ∧
      s'.At (toks ++ [.scalar (String.ofList cs) true]) (level + 1) more ∧ s'.cursor = c' := by
    refine ⟨{ s₁ with
      starts
      tokens := s₁.tokens ++ [.scalar (String.ofList cs) true]
      keyAllowed := ended
      cursor := c' }, ?_, ⟨⟨hs₁.indent, hcalm⟩, congrArg (· ++ _) hs₁.tokens, hs₁.level, hgap⟩, rfl⟩
    rw [step_of_isWord hlevel hcs hc, hnote]
    change Except.ok _ = _
    dsimp only
    rw [hread]
    rfl
  refine ⟨s', hstep, ?_, hnext s' hs'⟩
  rw [hcursor, List.length_append]
  exact hlength.trans (Nat.le_add_left _ _)

end Scan

end

end Yaml

end Dotpath

import Dotpath.Document.Json.Printer
import Dotpath.Document.Yaml.Scalar
import Dotpath.Proofs.Text.CodePoint

/-!
# Quoted JSON texts in YAML

A quoted JSON text is a scalar between double quotes in YAML (`quotedScalar_quoted`).  The reader
undoes each escape, but puts no halves of surrogate pairs together again: what it reads are the
`Text.halves` of the text.
-/

namespace Dotpath

namespace Yaml

/-! ## Places in a line -/

/-- Whether a character is one of ASCII that takes a place in a line. -/
def InLine (c : Char) : Prop := 0x20 ≤ c.toNat ∧ c.toNat ≤ 0x7e

instance : DecidablePred InLine := fun _ => inferInstanceAs (Decidable (_ ∧ _))

namespace InLine

variable {x : Char}

theorem ne_of_toNat {y : Char} (hx : InLine x) (hy : ¬ InLine y) : x ≠ y := by
  rintro rfl
  exact hy hx

theorem isBreak_eq_false (hx : InLine x) : isBreak x = false := by
  obtain ⟨hlow, hhigh⟩ := hx
  have hn : x ≠ '\n' := ne_of_toNat ⟨hlow, hhigh⟩ (by decide)
  have hr : x ≠ '\r' := ne_of_toNat ⟨hlow, hhigh⟩ (by decide)
  rw [isBreak, beq_false_of_ne hn, beq_false_of_ne hr, beq_false_of_ne (by omega),
    beq_false_of_ne (by omega), beq_false_of_ne (by omega)]
  rfl

theorem isLineEnd_eq_false (hx : InLine x) : isLineEnd x = false := by
  rw [isLineEnd, hx.isBreak_eq_false, beq_false_of_ne (hx.ne_of_toNat (by decide))]
  rfl

theorem isBlankOrEnd_eq_false (hx : InLine x) (hspace : x ≠ ' ') : isBlankOrEnd x = false := by
  rw [isBlankOrEnd, hx.isLineEnd_eq_false, beq_false_of_ne hspace,
    beq_false_of_ne (hx.ne_of_toNat (by decide))]
  rfl

theorem isAllowed_eq_true (hx : InLine x) : isAllowed x = true := by
  obtain ⟨hlow, hhigh⟩ := hx
  simp only [isAllowed, Text.codePoint_of_lt (show x.toNat < 0x10d800 by omega), hlow, hhigh,
    decide_true, Bool.and_self, Bool.or_true, Bool.true_or]

end InLine

namespace Cursor

variable {c : Cursor} {x : Char} {rest : List Char}

theorem peek_of_rest (hc : c.rest = x :: rest) : c.peek = x := by
  rw [peek, hc]
  rfl

theorem peekAt_of_rest (hc : c.rest = x :: rest) (n : Nat) :
    c.peekAt (n + 1) = (rest[n]?).getD endMark := by
  rw [peekAt, hc, List.getElem?_cons_succ]

theorem rest_advance (hc : c.rest = x :: rest) : c.advance.rest = rest := by
  unfold advance
  rw [hc]
  dsimp only
  split <;> split <;> rfl

theorem advance_of_inLine (hc : c.rest = x :: rest) (hx : InLine x) :
    c.advance = ⟨rest, c.index + 1, c.line, c.column + 1⟩ := by
  have hr : (x == '\r') = false := beq_false_of_ne (hx.ne_of_toNat (by decide))
  have hmark : x.toNat ≠ 0xfeff := by
    have := hx.2
    omega
  unfold advance
  rw [hc]
  dsimp only
  rw [hr, if_neg Bool.false_ne_true, hx.isBreak_eq_false, if_neg Bool.false_ne_true, if_neg hmark]

theorem advanceBy_succ (c : Cursor) (n : Nat) : c.advanceBy (n + 1) = c.advance.advanceBy n := rfl

theorem advanceBy_add (c : Cursor) (m n : Nat) :
    c.advanceBy (m + n) = (c.advanceBy m).advanceBy n := by
  induction m generalizing c with
  | zero => rw [Nat.zero_add]; rfl
  | succ m ih => rw [Nat.succ_add, advanceBy_succ, advanceBy_succ, ih]

theorem rest_advanceBy {cs : List Char} (hc : c.rest = cs ++ rest) :
    (c.advanceBy cs.length).rest = rest := by
  induction cs generalizing c with
  | nil => exact hc
  | cons x cs ih => exact ih (rest_advance hc)

/-- The place behind characters of a line is in this line. -/
theorem advanceBy_of_inLine {cs : List Char} (hc : c.rest = cs ++ rest) (hcs : ∀ x ∈ cs, InLine x) :
    c.advanceBy cs.length = ⟨rest, c.index + cs.length, c.line, c.column + cs.length⟩ := by
  induction cs generalizing c with
  | nil =>
    rw [List.nil_append] at hc
    rw [← hc]
    rfl
  | cons x cs ih =>
    obtain ⟨hx, hcs⟩ := List.forall_mem_cons.1 hcs
    rw [List.length_cons, advanceBy_succ, ih (rest_advance hc) hcs, advance_of_inLine hc hx,
      Nat.add_assoc, Nat.add_assoc, Nat.add_comm 1]

theorem span_of_not {p : Char → Bool} (hc : c.rest = x :: rest) (hx : p x = false) :
    c.span p = ([], c) := by
  rw [span, hc, List.takeWhile_cons, hx]
  rfl

theorem span_of {p : Char → Bool} (hc : c.rest = x :: rest) (hx : p x = true) :
    c.span p = (x :: (c.advance.span p).1, (c.advance.span p).2) := by
  rw [span, hc, List.takeWhile_cons, if_pos hx, span, rest_advance hc]
  rfl

/-- Equal characters before another one are spanned. -/
theorem span_replicate {p : Char → Bool} {n : Nat} {y : Char}
    (hc : c.rest = List.replicate n x ++ y :: rest) (hx : p x = true) (hy : p y = false) :
    c.span p = (List.replicate n x, c.advanceBy n) := by
  have hfound : c.rest.takeWhile p = List.replicate n x := by
    rw [hc, List.takeWhile_append_of_pos fun z hz => (List.eq_of_mem_replicate hz) ▸ hx,
      List.takeWhile_cons, hy, if_neg Bool.false_ne_true, List.append_nil]
  rw [span, hfound, List.length_replicate]

theorem lineBreak_of_not {x : Char} (hc : c.rest = x :: rest) (hx : isBreak x = false) :
    c.lineBreak = ([], c) := by
  have hbreak : (x == '\n' || x == '\r' || x.toNat == 0x85) = false := by
    rw [isBreak, Bool.or_eq_false_iff, Bool.or_eq_false_iff] at hx
    exact hx.1.1
  rw [lineBreak, hc]
  split
  · next heq =>
    cases heq
    cases hx
  · next heq =>
    cases heq
    rw [hbreak, hx, if_neg Bool.false_ne_true, if_neg Bool.false_ne_true]
  · next heq => cases heq

end Cursor

/-! ## Content between double quotes -/

section

variable {c : Cursor} {x : Char} {rest acc : List Char} {fuel : Nat}

/-- A character that ends a run between double quotes. -/
def endsRun (x : Char) : Bool := x == '\'' || x == '"' || x == '\\' || isBlankOrEnd x

/-- The content of a quoted scalar by what follows the run of ordinary characters. -/
theorem quotedContent_of_endsRun (hc : c.rest = x :: rest) (hx : endsRun x = true) :
    quotedContent true acc (fuel + 1) c =
      if x = '"' then .ok (String.ofList acc, c.advance)
      else if x = '\'' then quotedContent true (acc ++ [x]) fuel c.advance
      else if x = '\\' then
        escaped c.advance >>= fun r => quotedContent true (acc ++ r.1) fuel r.2
      else quotedSpaces c >>= fun r => quotedContent true (acc ++ r.1) fuel r.2 := by
  have hrun : c.span (fun x => !(x == '\'' || x == '"' || x == '\\' || isBlankOrEnd x)) = ([], c) :=
    Cursor.span_of_not hc (by rw [← endsRun, hx]; rfl)
  rw [quotedContent, hrun]
  dsimp only
  rw [Cursor.peek_of_rest hc, List.append_nil]
  simp only [Bool.not_true, Bool.false_and, Bool.false_eq_true, if_false, if_true, beq_iff_eq,
    Bool.or_false, Bool.or_eq_true]
  by_cases hdouble : x = '"'
  · rw [if_pos hdouble, if_pos hdouble]
  · simp only [hdouble, if_false, or_false]

/-- An ordinary character belongs to the run that the next ones make. -/
theorem quotedContent_of_ordinary (hc : c.rest = x :: rest) (hx : endsRun x = false) :
    quotedContent true acc (fuel + 1) c = quotedContent true (acc ++ [x]) (fuel + 1) c.advance := by
  have hrun := Cursor.span_of (p := fun x => !(x == '\'' || x == '"' || x == '\\' || isBlankOrEnd x))
    hc (by rw [← endsRun, hx]; rfl)
  rw [quotedContent, hrun, quotedContent]
  dsimp only
  rw [List.append_cons acc x (c.advance.span _).1]

/-- Spaces before another character of the line are content. -/
theorem quotedSpaces_replicate {n : Nat} (hc : c.rest = List.replicate (n + 1) ' ' ++ x :: rest)
    (hx : InLine x) (hspace : x ≠ ' ') :
    quotedSpaces c = .ok (List.replicate (n + 1) ' ', c.advanceBy (n + 1)) := by
  have hblank : (x == ' ' || x == '\t') = false := by
    rw [beq_false_of_ne hspace, beq_false_of_ne (hx.ne_of_toNat (by decide))]
    rfl
  have hrest : (c.advanceBy (n + 1)).rest = x :: rest := by
    rw [← List.length_replicate (n := n + 1) (a := ' '), Cursor.rest_advanceBy hc]
  rw [quotedSpaces, Cursor.span_replicate hc rfl hblank]
  dsimp only
  rw [hrest, List.isEmpty_cons, if_neg Bool.false_ne_true,
    Cursor.lineBreak_of_not hrest hx.isBreak_eq_false]

theorem escaped_of_letter {n : Nat} (hc : c.rest = x :: rest) (hx : escapeLetters.lookup x = some n) :
    escaped c = .ok ([Char.ofNat n], c.advance) := by
  rw [escaped, Cursor.peek_of_rest hc]
  dsimp only
  rw [hx]

/-! ## Hexadecimal digits -/

theorem hexValue?_digitChar {n : Nat} (hn : n < 16) : Json.hexValue? n.digitChar = some n := by
  have hall : ∀ d : Fin 16, Json.hexValue? (Nat.digitChar d.val) = some d.val := by decide
  exact hall ⟨n, hn⟩

theorem inLine_digitChar {n : Nat} (hn : n < 16) : InLine n.digitChar := by
  have hall : ∀ d : Fin 16, InLine (Nat.digitChar d.val) := by decide
  exact hall ⟨n, hn⟩

theorem hexNumber?_append_digit {ds : List Char} {m n : Nat} (hds : hexNumber? ds = some m)
    (hn : n < 16) : hexNumber? (ds ++ [n.digitChar]) = some (m * 16 + n) := by
  rw [hexNumber?, List.foldl_append]
  change (do return (← hexNumber? ds) * 16 + (← Json.hexValue? n.digitChar)) = _
  rw [hds, hexValue?_digitChar hn]
  rfl

theorem hexNumber?_toDigits (n : Nat) : hexNumber? (Nat.toDigits 16 n) = some n := by
  induction n using Nat.strongRecOn with
  | ind n ih =>
    by_cases hn : n < 16
    · rw [Nat.toDigits_of_lt_base hn]
      have hzero : hexNumber? [] = some 0 := rfl
      exact (hexNumber?_append_digit hzero hn).trans (congrArg some (by omega))
    · rw [Nat.toDigits_of_base_le (by decide) (Nat.not_lt.1 hn),
        hexNumber?_append_digit (ih (n / 16) (by omega)) (Nat.mod_lt n (by decide)),
        Nat.mul_comm, Nat.div_add_mod]

theorem inLine_toDigits (n : Nat) : ∀ d ∈ Nat.toDigits 16 n, InLine d := by
  induction n using Nat.strongRecOn with
  | ind n ih =>
    by_cases hn : n < 16
    · rw [Nat.toDigits_of_lt_base hn]
      exact List.forall_mem_singleton.2 (inLine_digitChar hn)
    · rw [Nat.toDigits_of_base_le (by decide) (Nat.not_lt.1 hn), List.forall_mem_append]
      exact ⟨ih (n / 16) (by omega),
        List.forall_mem_singleton.2 (inLine_digitChar (Nat.mod_lt n (by decide)))⟩

theorem inLine_hex (width n : Nat) : ∀ d ∈ Text.hex width n, InLine d := by
  rw [Text.hex, List.forall_mem_append]
  exact ⟨fun d hd => List.eq_of_mem_replicate hd ▸ (by decide), inLine_toDigits n⟩

theorem length_hex {n : Nat} (hn : n < 0x10000) : (Text.hex 4 n).length = 4 := by
  have hlength : (Nat.toDigits 16 n).length ≤ 4 :=
    (Nat.length_toDigits_le_iff (by decide) (by decide)).2 hn
  rw [Text.hex, List.length_append, List.length_replicate]
  omega

theorem hexNumber?_hex (width n : Nat) : hexNumber? (Text.hex width n) = some n := by
  have hzeros (k : Nat) : hexNumber? (List.replicate k '0') = some 0 := by
    induction k with
    | zero => rfl
    | succ k ih =>
      rw [List.replicate_succ']
      exact hexNumber?_append_digit (n := 0) ih (by decide)
  have hdigits := hexNumber?_toDigits n
  rw [hexNumber?] at hdigits
  rw [Text.hex, hexNumber?, List.foldl_append]
  change List.foldl _ (hexNumber? _) _ = _
  rw [hzeros, hdigits]

theorem escaped_of_hex {n : Nat} (hn : n < 0x10000)
    (hc : c.rest = 'u' :: (Text.hex 4 n ++ rest)) :
    escaped c = .ok ([Text.ofCodePoint n], c.advanceBy 5) := by
  have hletter : escapeLetters.lookup 'u' = none := by decide
  have hwidth : escapeWidths.lookup 'u' = some 4 := by decide
  have hdigits : (Text.hex 4 n ++ rest).take 4 = Text.hex 4 n := List.take_left' (length_hex hn)
  have hcode : codeChar n = .ok (Text.ofCodePoint n) := by
    rw [codeChar, if_neg (by omega)]
  rw [escaped, Cursor.peek_of_rest hc]
  dsimp only
  rw [hletter, hwidth, Cursor.rest_advance hc]
  dsimp only
  rw [hdigits, length_hex hn, if_neg (Nat.lt_irrefl 4), hexNumber?_hex]
  dsimp only
  rw [hcode]
  rfl

end

/-! ## Escapes -/

/-- A character of one 16-bit unit stands for itself, or is escaped by a letter or by its code. -/
theorem escapedChar_cases {u : Char} (hu : Text.codePoint u < 0x10000) :
    (InLine u ∧ u ≠ '"' ∧ u ≠ '\\' ∧ Json.escapedChar u = [u]) ∨
      (∃ l n, InLine l ∧ escapeLetters.lookup l = some n ∧ Char.ofNat n = u ∧
        Json.escapedChar u = ['\\', l]) ∨
      Json.escapedChar u = '\\' :: 'u' :: Text.hex 4 (Text.codePoint u) := by
  have hcode {n : Nat} (hn : n < 128) (h : Text.codePoint u = n) : Char.ofNat n = u := by
    rw [← Text.ofCodePoint_codePoint u, h, Text.ofCodePoint,
      Text.isHalf_eq_false_iff.2 (by omega), if_neg Bool.false_ne_true]
  unfold Json.escapedChar
  dsimp only
  split
  · next h =>
    refine .inr (.inl ?_)
    rcases h with rfl | rfl
    · exact ⟨'"', 34, by decide, by decide, rfl, rfl⟩
    · exact ⟨'\\', 92, by decide, by decide, rfl, rfl⟩
  split
  · next h => exact .inr (.inl ⟨'n', 10, by decide, by decide, h.symm, rfl⟩)
  split
  · next h => exact .inr (.inl ⟨'r', 13, by decide, by decide, h.symm, rfl⟩)
  split
  · next h => exact .inr (.inl ⟨'t', 9, by decide, by decide, h.symm, rfl⟩)
  split
  · next h => exact .inr (.inl ⟨'f', 12, by decide, by decide, hcode (by decide) h, rfl⟩)
  split
  · next h => exact .inr (.inl ⟨'b', 8, by decide, by decide, hcode (by decide) h, rfl⟩)
  split
  · next hquote _ _ _ _ _ h =>
    rw [not_or] at hquote
    have hsame : Text.codePoint u = u.toNat := by
      rw [← hcode (by omega) rfl, Text.toNat_ofNat (.inl (by omega))]
      rw [hcode (by omega) rfl]
    rw [hsame] at h
    exact .inl ⟨⟨h.1, by omega⟩, hquote.1, hquote.2, rfl⟩
  · exact .inr (.inr rfl)

theorem inLine_escapedChar {u : Char} (hu : Text.codePoint u < 0x10000) :
    ∀ d ∈ Json.escapedChar u, InLine d := by
  rcases escapedChar_cases hu with ⟨hline, -, -, h⟩ | ⟨l, n, hl, -, -, h⟩ | h <;> rw [h]
  · exact List.forall_mem_singleton.2 hline
  · exact List.forall_mem_cons.2 ⟨by decide, List.forall_mem_singleton.2 hl⟩
  · exact List.forall_mem_cons.2 ⟨by decide, List.forall_mem_cons.2 ⟨by decide, inLine_hex _ _⟩⟩

theorem escapedChar_of_le {u : Char} (hu : 0xd800 ≤ Text.codePoint u) :
    Json.escapedChar u =
      if Text.codePoint u < 0x10000 then Json.unitEscape (Text.codePoint u)
      else
        Json.unitEscape (0xd800 + (Text.codePoint u - 0x10000) / 0x400) ++
          Json.unitEscape (0xdc00 + (Text.codePoint u - 0x10000) % 0x400) := by
  have hne : ∀ x, Text.codePoint x < 0xd800 → u ≠ x := by
    rintro x hx rfl
    omega
  unfold Json.escapedChar
  dsimp only
  rw [if_neg (not_or.2 ⟨hne _ (by decide), hne _ (by decide)⟩), if_neg (hne _ (by decide)),
    if_neg (hne _ (by decide)), if_neg (hne _ (by decide)), if_neg (by omega), if_neg (by omega),
    if_neg (by omega)]

theorem escapedChar_ofCodePoint {n : Nat} (hlow : 0xd800 ≤ n) (hhigh : n < 0xe000) :
    Json.escapedChar (Text.ofCodePoint n) = Json.unitEscape n := by
  have hn : Text.codePoint (Text.ofCodePoint n) = n := Text.codePoint_ofCodePoint (by omega)
  rw [escapedChar_of_le (by omega), hn, if_pos (by omega)]

/-- The escape of a character is that of its halves. -/
theorem flatMap_escapedChar_charHalves (c : Char) :
    (Text.charHalves c).flatMap Json.escapedChar = Json.escapedChar c := by
  have hc := Text.codePoint_lt c
  by_cases hsmall : Text.codePoint c < 0x10000
  · rw [Text.charHalves_of_lt hsmall, List.flatMap_singleton]
  · rw [Text.charHalves, if_neg hsmall, List.flatMap_cons, List.flatMap_singleton,
      escapedChar_ofCodePoint (by omega) (by omega), escapedChar_ofCodePoint (by omega) (by omega),
      escapedChar_of_le (by omega), if_neg hsmall]

/-! ## Quoted texts -/

section

variable {c : Cursor} {rest : List Char}

theorem endsRun_of_inLine {x : Char} (hx : InLine x) (hdouble : x ≠ '"') (hback : x ≠ '\\')
    (hspace : x ≠ ' ') (hsingle : x ≠ '\'') : endsRun x = false := by
  rw [endsRun, beq_false_of_ne hsingle, beq_false_of_ne hdouble, beq_false_of_ne hback,
    hx.isBlankOrEnd_eq_false hspace]
  rfl

/-- What follows some spaces of a quoted text. -/
theorem exists_head_of_no_space {us : List Char} (hus : ∀ u ∈ us, Text.codePoint u < 0x10000)
    (hspace : us.head? ≠ some ' ') (rest : List Char) :
    ∃ x more, us.flatMap Json.escapedChar ++ '"' :: rest = x :: more ∧ InLine x ∧ x ≠ ' ' := by
  cases us with
  | nil => exact ⟨'"', rest, rfl, by decide, by decide⟩
  | cons u us =>
    rw [List.flatMap_cons, List.append_assoc]
    rcases escapedChar_cases (hus u List.mem_cons_self) with ⟨hline, -, -, h⟩ | ⟨l, n, -, -, -, h⟩ | h
    · exact ⟨u, _, by rw [h]; rfl, hline, fun hu => hspace (congrArg some hu)⟩
    · exact ⟨'\\', _, by rw [h]; rfl, by decide, by decide⟩
    · exact ⟨'\\', _, by rw [h]; rfl, by decide, by decide⟩

/-- Leading spaces and the rest of a text. -/
theorem exists_spaces (us : List Char) :
    ∃ n vs, us = List.replicate n ' ' ++ vs ∧ vs.head? ≠ some ' ' := by
  induction us with
  | nil => exact ⟨0, [], rfl, nofun⟩
  | cons u us ih =>
    by_cases hu : u = ' '
    · obtain ⟨n, vs, rfl, hvs⟩ := ih
      exact ⟨n + 1, vs, by rw [hu, List.replicate_succ, List.cons_append], hvs⟩
    · exact ⟨0, u :: us, rfl, fun h => hu (Option.some.inj h)⟩

theorem flatMap_escapedChar_replicate (n : Nat) :
    (List.replicate n ' ').flatMap Json.escapedChar = List.replicate n ' ' := by
  have hspace : Json.escapedChar ' ' = [' '] := by decide
  induction n with
  | zero => rfl
  | succ n ih => rw [List.replicate_succ, List.flatMap_cons, ih, hspace, List.singleton_append]

theorem quotedContent_of_letter {l : Char} {n : Nat} {acc : List Char} (fuel : Nat)
    (hl : escapeLetters.lookup l = some n) (hc : c.rest = '\\' :: l :: rest) :
    quotedContent true acc (fuel + 1) c =
      quotedContent true (acc ++ [Char.ofNat n]) fuel (c.advanceBy 2) := by
  rw [quotedContent_of_endsRun hc rfl, if_neg (by decide), if_neg (by decide), if_pos rfl,
    escaped_of_letter (Cursor.rest_advance hc) hl]
  rfl

theorem quotedContent_of_hex {n : Nat} {acc : List Char} (fuel : Nat) (hn : n < 0x10000)
    (hc : c.rest = '\\' :: 'u' :: (Text.hex 4 n ++ rest)) :
    quotedContent true acc (fuel + 1) c =
      quotedContent true (acc ++ [Text.ofCodePoint n]) fuel (c.advanceBy 6) := by
  rw [quotedContent_of_endsRun hc rfl, if_neg (by decide), if_neg (by decide), if_pos rfl,
    escaped_of_hex hn (Cursor.rest_advance hc)]
  rfl

/-- A character that is no space is read by its escape. -/
theorem quotedContent_of_ne_space {u : Char} (hu : Text.codePoint u < 0x10000) (hspace : u ≠ ' ')
    {acc : List Char} (fuel : Nat) (hc : c.rest = Json.escapedChar u ++ rest) :
    ∃ fuel', fuel ≤ fuel' ∧ quotedContent true acc (fuel + 1) c =
      quotedContent true (acc ++ [u]) fuel' (c.advanceBy (Json.escapedChar u).length) := by
  rcases escapedChar_cases hu with ⟨hline, hdouble, hback, h⟩ | ⟨l, n, -, hl, rfl, h⟩ | h
  · have hone : c.advanceBy [u].length = c.advance := rfl
    rw [h, List.singleton_append] at hc
    rw [h, hone]
    by_cases hsingle : u = '\''
    · refine ⟨fuel, Nat.le_refl _, ?_⟩
      rw [quotedContent_of_endsRun hc (by rw [hsingle]; rfl), if_neg hdouble, if_pos hsingle]
    · exact ⟨fuel + 1, Nat.le_succ _, quotedContent_of_ordinary hc
        (endsRun_of_inLine hline hdouble hback hspace hsingle)⟩
  · rw [h] at hc ⊢
    exact ⟨fuel, Nat.le_refl _, quotedContent_of_letter fuel hl hc⟩
  · have hlength : (Json.escapedChar u).length = 6 := by
      rw [h, List.length_cons, List.length_cons, length_hex hu]
    rw [h, List.cons_append, List.cons_append] at hc
    refine ⟨fuel, Nat.le_refl _, ?_⟩
    rw [quotedContent_of_hex fuel hu hc, Text.ofCodePoint_codePoint, hlength]

/-- The spaces before another character are read at once. -/
theorem quotedContent_replicate {n : Nat} {us : List Char}
    (hus : ∀ u ∈ us, Text.codePoint u < 0x10000) (hspace : us.head? ≠ some ' ') {acc : List Char}
    (fuel : Nat)
    (hc : c.rest = List.replicate (n + 1) ' ' ++ (us.flatMap Json.escapedChar ++ '"' :: rest)) :
    quotedContent true acc (fuel + 1) c =
      quotedContent true (acc ++ List.replicate (n + 1) ' ') fuel (c.advanceBy (n + 1)) := by
  obtain ⟨x, more, hmore, hx, hne⟩ := exists_head_of_no_space hus hspace rest
  have hread := quotedSpaces_replicate (hmore ▸ hc) hx hne
  rw [List.replicate_succ, List.cons_append] at hc
  rw [quotedContent_of_endsRun hc rfl, if_neg (by decide), if_neg (by decide), if_neg (by decide),
    hread]
  rfl

/-- One character or one run of spaces is read. -/
theorem quotedContent_cons {u : Char} {us : List Char}
    (hus : ∀ v ∈ u :: us, Text.codePoint v < 0x10000) {acc : List Char} (fuel : Nat)
    (hc : c.rest = (u :: us).flatMap Json.escapedChar ++ '"' :: rest) :
    ∃ vs ws fuel', u :: us = vs ++ ws ∧ vs ≠ [] ∧ fuel ≤ fuel' ∧
      quotedContent true acc (fuel + 1) c =
        quotedContent true (acc ++ vs) fuel' (c.advanceBy (vs.flatMap Json.escapedChar).length) := by
  by_cases hspace : u = ' '
  · subst hspace
    obtain ⟨n, ws, rfl, hws⟩ := exists_spaces us
    rw [← List.cons_append, ← List.replicate_succ] at hus hc ⊢
    rw [List.flatMap_append, flatMap_escapedChar_replicate, List.append_assoc] at hc
    refine ⟨_, ws, fuel, rfl, List.replicate_succ_ne_nil, Nat.le_refl _, ?_⟩
    rw [flatMap_escapedChar_replicate, List.length_replicate]
    exact quotedContent_replicate (List.forall_mem_append.1 hus).2 hws fuel hc
  · rw [List.flatMap_cons, List.append_assoc] at hc
    obtain ⟨fuel', hle, hread⟩ :=
      quotedContent_of_ne_space (hus u List.mem_cons_self) hspace fuel hc
    exact ⟨[u], us, fuel', rfl, List.cons_ne_nil _ _, hle, by rwa [List.flatMap_singleton]⟩

theorem escapedChar_ne_nil {u : Char} (hu : Text.codePoint u < 0x10000) :
    Json.escapedChar u ≠ [] := by
  rcases escapedChar_cases hu with ⟨-, -, -, h⟩ | ⟨l, n, -, -, -, h⟩ | h <;>
    exact h ▸ List.cons_ne_nil _ _

/-- The escapes of characters of one 16-bit unit are undone up to the closing quote. -/
theorem quotedContent_flatMap (us : List Char) (hus : ∀ u ∈ us, Text.codePoint u < 0x10000)
    {c : Cursor} {acc : List Char} {fuel : Nat}
    (hc : c.rest = us.flatMap Json.escapedChar ++ '"' :: rest) (hfuel : c.rest.length < fuel) :
    quotedContent true acc fuel c =
      .ok (String.ofList (acc ++ us), c.advanceBy ((us.flatMap Json.escapedChar).length + 1)) := by
  induction hn : us.length using Nat.strongRecOn generalizing us c acc fuel with
  | ind n ih =>
    obtain ⟨fuel, rfl⟩ := Nat.exists_eq_succ_of_ne_zero (Nat.ne_zero_of_lt hfuel)
    cases us with
    | nil =>
      rw [quotedContent_of_endsRun hc rfl, if_pos rfl, List.append_nil]
      rfl
    | cons u us =>
      obtain ⟨vs, ws, fuel', hsplit, hvs, hle, hread⟩ := quotedContent_cons hus fuel hc
      rw [hsplit] at hus hc hn ⊢
      rw [List.flatMap_append, List.append_assoc] at hc
      have hrest := Cursor.rest_advanceBy hc
      have hread' : 0 < (vs.flatMap Json.escapedChar).length := by
        rw [List.length_pos_iff, Ne, List.flatMap_eq_nil_iff]
        obtain ⟨v, hv⟩ := List.exists_mem_of_ne_nil vs hvs
        exact fun hall => escapedChar_ne_nil (hus v (List.mem_append_left _ hv)) (hall v hv)
      have hlength := congrArg List.length hc
      rw [List.length_append, ← hrest] at hlength
      have hpos := List.length_pos_iff.2 hvs
      rw [List.length_append] at hn
      rw [hread, ih ws.length (by omega) ws (List.forall_mem_append.1 hus).2 hrest (by omega) rfl,
        List.append_assoc, List.flatMap_append, List.length_append, Nat.add_assoc,
        Cursor.advanceBy_add c]

/-- A text that is split into halves has the same JSON text. -/
theorem quoted_halves (s : String) : Json.quoted (Text.halves s) = Json.quoted s := by
  rw [Json.quoted, Json.quoted, Text.halves, String.toList_ofList, List.flatMap_assoc,
    List.flatMap_congr fun c _ => flatMap_escapedChar_charHalves c]

theorem toList_quoted_eq (s : String) : (Json.quoted s).toList =
    '"' :: ((Text.halves s).toList.flatMap Json.escapedChar ++ ['"']) := by
  rw [← quoted_halves, Json.quoted, String.toList_ofList]

/-- All of a quoted text is in one line. -/
theorem inLine_quoted (s : String) : ∀ x ∈ (Json.quoted s).toList, InLine x := by
  rw [toList_quoted_eq, List.forall_mem_cons, List.forall_mem_append, List.forall_mem_singleton]
  refine ⟨by decide, fun x hx => ?_, by decide⟩
  obtain ⟨u, hu, hx⟩ := List.mem_flatMap.1 hx
  exact inLine_escapedChar (Text.codePoint_lt_of_mem_halves hu) x hx

/-- A quoted JSON text is read as the text, split into halves where it was written so. -/
theorem quotedScalar_quoted {s : String} (hc : c.rest = (Json.quoted s).toList ++ rest) :
    quotedScalar c = .ok (Text.halves s, c.advanceBy (Json.quoted s).toList.length) := by
  rw [toList_quoted_eq, List.cons_append, List.append_assoc, List.singleton_append] at hc
  have hrest := Cursor.rest_advance hc
  rw [quotedScalar, Cursor.peek_of_rest hc, beq_self_eq_true,
    quotedContent_flatMap _ (fun _ => Text.codePoint_lt_of_mem_halves) hrest, List.nil_append,
    String.ofList_toList, toList_quoted_eq, List.length_cons, List.length_append]
  · rfl
  · rw [hrest, hc, List.length_cons]
    omega

end

end Yaml

end Dotpath

import Dotpath.Document.Json.Printer
import Dotpath.Document.Json.Reader
import Dotpath.Proofs.Text.CodePoint
import Mathlib.Data.List.Basic

/-!
# Objects that are read back

A JSON object of simple pairs, with every pair on a line of its own, is read as the dictionary of
these pairs (`read?_block`).  A pair is simple if its key needs no escapes and its value is read from
its text whatever follows (`SimplePair`).
-/

namespace Dotpath

namespace Json

/-- Whether a character stands for itself between quotes. -/
def isPlainChar (c : Char) : Bool := c != '"' && c != '\\' && decide (32 ≤ c.toNat ∧ c.toNat < 127)

/-- Whether a scalar is read from some characters, whatever follows them. -/
structure ReadsAs (cs : List Char) (s : Scalar) : Prop where
  skip : ∀ rest, skipBlanks (cs ++ rest) = cs ++ rest
  read : ∀ fuel h rest, readValue (fuel + 1) h (cs ++ rest) = some (.scalar s, h, rest)

theorem readText_plain {cs : List Char} (hcs : cs.all isPlainChar = true) (rest : List Char)
    {acc : List Char} {fuel : Nat} (hfuel : cs.length < fuel) :
    readText acc fuel (cs ++ '"' :: rest) = some (.ofList (acc.reverse ++ cs), rest) := by
  induction cs generalizing acc fuel with
  | nil =>
    obtain ⟨fuel, rfl⟩ := Nat.exists_eq_succ_of_ne_zero (Nat.ne_zero_of_lt hfuel)
    rw [List.nil_append, readText, List.append_nil]
  | cons c cs ih =>
    obtain ⟨fuel, rfl⟩ := Nat.exists_eq_succ_of_ne_zero (Nat.ne_zero_of_lt hfuel)
    rw [List.all_cons, Bool.and_eq_true] at hcs
    obtain ⟨hc, hcs⟩ := hcs
    simp only [isPlainChar, Bool.and_eq_true, bne_iff_ne, decide_eq_true_eq] at hc
    rw [List.cons_append, readText, if_neg (by omega), ih hcs (Nat.lt_of_succ_lt_succ hfuel),
      List.reverse_cons, List.append_assoc, List.singleton_append]
    all_goals simp_all

/-- A text without escapes is read up to its closing quote. -/
theorem readText_toList {s : String} (hs : s.toList.all isPlainChar = true) (rest : List Char) :
    readText [] ((s.toList ++ '"' :: rest).length + 1) (s.toList ++ '"' :: rest) =
      some (s, rest) := by
  rw [readText_plain hs rest (by simp only [List.length_append, List.length_cons]; omega),
    List.reverse_nil, List.nil_append, String.ofList_toList]

theorem toList_quoted {s : String} (hs : s.toList.all isPlainChar = true) :
    (quoted s).toList = '"' :: (s.toList ++ ['"']) := by
  have hescaped : ∀ c ∈ s.toList, escapedChar c = [c] := by
    intro c hc
    have hplain := List.all_eq_true.1 hs c hc
    simp only [isPlainChar, Bool.and_eq_true, bne_iff_ne, decide_eq_true_eq] at hplain
    have hne : ∀ d, d.toNat < 32 → c ≠ d := by
      rintro d hd rfl
      omega
    unfold escapedChar
    dsimp only
    rw [Text.codePoint_of_lt (by omega), if_neg (by simp [hplain]), if_neg (hne _ (by decide)),
      if_neg (hne _ (by decide)), if_neg (hne _ (by decide)), if_neg (by omega), if_neg (by omega),
      if_pos hplain.2]
  have hflat : s.toList.flatMap escapedChar = s.toList.flatMap fun c => [c] :=
    List.flatMap_congr hescaped
  rw [quoted, String.toList_ofList, hflat, List.flatMap_singleton']

theorem readsAs_quoted {s : String} (hs : s.toList.all isPlainChar = true) :
    ReadsAs (quoted s).toList (.text s) where
  skip rest := by rw [toList_quoted hs]; rfl
  read fuel h rest := by
    rw [toList_quoted hs, List.cons_append, List.append_assoc, List.singleton_append, readValue,
      readText_toList hs]
    rfl

theorem readsAs_bool (b : Bool) : ReadsAs (if b then "true" else "false").toList (.bool b) where
  skip rest := by cases b <;> rfl
  read fuel h rest := by
    cases b with
    | true =>
      change readValue _ _ ('t' :: 'r' :: 'u' :: 'e' :: rest) = _
      rfl
    | false => rfl

/-! ## Pairs -/

/-- A pair of an object that is read from its line alone. -/
structure SimplePair where
  key : String
  text : String
  value : Scalar
  isPlain_key : key.toList.all isPlainChar = true
  readsAs : ReadsAs text.toList value

namespace SimplePair

/-- The line of a pair. -/
def line (p : SimplePair) : String := "\"" ++ p.key ++ "\": " ++ p.text

/-- The pair that is read. -/
def entry (p : SimplePair) : Value × Value := (.scalar (.text p.key), .scalar p.value)

theorem toList_line (p : SimplePair) (rest : List Char) : p.line.toList ++ rest =
    '"' :: (p.key.toList ++ '"' :: ':' :: ' ' :: (p.text.toList ++ rest)) := by
  simp [line]

end SimplePair

variable {h : Heap}

theorem readPairs_line (p : SimplePair) (fuel : Nat) (rest : List Char) :
    readPairs (fuel + 2) h (p.line.toList ++ rest) =
      match skipBlanks rest with
      | ',' :: rest => do
        let (es, h, rest) ← readPairs (fuel + 1) h (skipBlanks rest)
        return (p.entry :: es, h, rest)
      | '\x7d' :: rest => some ([p.entry], h, rest)
      | _ => none := by
  have hskip : skipBlanks (' ' :: (p.text.toList ++ rest)) = p.text.toList ++ rest := by
    rw [skipBlanks, if_pos (.inl rfl), p.readsAs.skip]
  rw [p.toList_line, readPairs, readText_toList p.isPlain_key]
  change Option.bind (readValue (fuel + 1) h (skipBlanks (' ' :: (p.text.toList ++ rest)))) _ = _
  rw [hskip, p.readsAs.read]
  rfl

theorem toList_newline_zero : (newline 0).toList = ['\n'] := by decide

theorem toList_newline_one : (newline 1).toList = ['\n', ' ', ' '] := by decide

/-- The lines of some pairs. -/
def SimplePair.lines (ps : List SimplePair) : List Char :=
  (String.intercalate ("," ++ newline 1) (ps.map SimplePair.line)).toList

theorem SimplePair.lines_singleton (p : SimplePair) : lines [p] = p.line.toList := by
  rw [lines, List.map_singleton, String.intercalate_singleton]

theorem SimplePair.lines_cons_cons (p q : SimplePair) (ps : List SimplePair) :
    lines (p :: q :: ps) = p.line.toList ++ ',' :: '\n' :: ' ' :: ' ' :: lines (q :: ps) := by
  rw [lines, List.map_cons, List.map_cons, String.intercalate_cons_cons, String.toList_append,
    String.toList_append, String.toList_append, toList_newline_one, List.append_assoc,
    List.append_assoc]
  rfl

theorem SimplePair.exists_lines_eq_cons (p : SimplePair) (ps : List SimplePair) :
    ∃ cs, lines (p :: ps) = '"' :: cs := by
  have hline : ∃ cs, p.line.toList = '"' :: cs := ⟨_, by simpa using p.toList_line []⟩
  obtain ⟨cs, hcs⟩ := hline
  cases ps with
  | nil => exact ⟨cs, by rw [lines_singleton, hcs]⟩
  | cons q ps => exact ⟨_, by rw [lines_cons_cons, hcs, List.cons_append]⟩

theorem SimplePair.length_le_lines (p : SimplePair) (ps : List SimplePair) :
    ps.length ≤ (lines (p :: ps)).length := by
  induction ps generalizing p with
  | nil => exact Nat.zero_le _
  | cons q ps ih =>
    have hrest := ih q
    simp only [lines_cons_cons, List.length_append, List.length_cons]
    omega

/-- A line break and its indentation are skipped up to the lines that follow. -/
theorem SimplePair.skipBlanks_lines (p : SimplePair) (ps : List SimplePair) (rest : List Char) :
    skipBlanks ('\n' :: ' ' :: ' ' :: (lines (p :: ps) ++ rest)) = lines (p :: ps) ++ rest := by
  obtain ⟨cs, hcs⟩ := p.exists_lines_eq_cons ps
  rw [hcs]
  rfl

/-- The lines of pairs are read one by one up to the closing brace. -/
theorem readPairs_lines (p : SimplePair) (ps : List SimplePair) {fuel : Nat}
    (hfuel : ps.length + 2 ≤ fuel) :
    readPairs fuel h (SimplePair.lines (p :: ps) ++ ['\n', '\x7d']) =
      some ((p :: ps).map SimplePair.entry, h, []) := by
  obtain ⟨fuel, rfl⟩ := Nat.exists_eq_add_of_le' (Nat.le_of_add_left_le hfuel)
  induction ps generalizing p fuel with
  | nil =>
    rw [SimplePair.lines_singleton]
    exact readPairs_line p fuel _
  | cons q ps ih =>
    rw [List.length_cons] at hfuel
    obtain ⟨fuel, rfl⟩ : ∃ k, fuel = k + 1 := ⟨fuel - 1, by omega⟩
    rw [SimplePair.lines_cons_cons, List.append_assoc, readPairs_line]
    change Option.bind (readPairs (fuel + 2) h (skipBlanks ('\n' :: ' ' :: ' ' ::
      (SimplePair.lines (q :: ps) ++ ['\n', '\x7d'])))) _ = _
    rw [SimplePair.skipBlanks_lines, ih q fuel (by omega)]
    rfl

/-- An object of simple pairs is read as the dictionary of these pairs. -/
theorem read?_block (p : SimplePair) (ps : List SimplePair) :
    read? h (block 0 "\x7b" "\x7d" ((p :: ps).map SimplePair.line)) =
      some (.ref (h.alloc (.dict .plain (Entries.ofList ((p :: ps).map SimplePair.entry)))).2,
        (h.alloc (.dict .plain (Entries.ofList ((p :: ps).map SimplePair.entry)))).1) := by
  have hchars : (block 0 "\x7b" "\x7d" ((p :: ps).map SimplePair.line)).toList =
      '\x7b' :: '\n' :: ' ' :: ' ' :: (SimplePair.lines (p :: ps) ++ ['\n', '\x7d']) := by
    simp [block, toList_newline_zero, toList_newline_one, SimplePair.lines]
  have hread {fuel : Nat} (hfuel : ps.length + 3 ≤ fuel) : readValue fuel h
      ('\x7b' :: '\n' :: ' ' :: ' ' :: (SimplePair.lines (p :: ps) ++ ['\n', '\x7d'])) =
        some (.ref (h.alloc (.dict .plain (Entries.ofList ((p :: ps).map SimplePair.entry)))).2,
          (h.alloc (.dict .plain (Entries.ofList ((p :: ps).map SimplePair.entry)))).1, []) := by
    obtain ⟨cs, hcs⟩ := p.exists_lines_eq_cons ps
    obtain ⟨fuel, rfl⟩ : ∃ k, fuel = k + 1 := ⟨fuel - 1, by omega⟩
    have hpairs := readPairs_lines (h := h) p ps (Nat.le_of_succ_le_succ hfuel)
    rw [readValue, SimplePair.skipBlanks_lines]
    rw [hcs] at hpairs ⊢
    change Option.bind (readPairs fuel h ('"' :: cs ++ ['\n', '\x7d'])) _ = _
    rw [hpairs]
    rfl
  have hskip (rest : List Char) : skipBlanks ('\x7b' :: rest) = '\x7b' :: rest := rfl
  have hlength := p.length_le_lines ps
  unfold read?
  dsimp only
  rw [hchars, hskip, hread]
  · rfl
  · simp only [List.length_append, List.length_cons]
    omega

end Json

end Dotpath

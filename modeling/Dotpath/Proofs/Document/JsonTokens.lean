import Dotpath.Proofs.Document.JsonNumber
import Dotpath.Proofs.Document.JsonScan
import Dotpath.Proofs.Document.Reread

/-!
# The tokens of a JSON text

The YAML reader splits the JSON text of a tree into the tokens of the tree (`tokens_json`): brackets
and commas, keys and their values, texts that are quoted, and words and numbers that are plain
scalars.  A scan that is at the text of a tree yields what it yields behind the tree's tokens
(`Splits`), and this is shown one part after the other, along the tree.
-/

namespace Dotpath

namespace Tree

/-! ## Atoms -/

namespace Atom

/-- The token that an atom is read as. -/
def token : Atom → Yaml.Token
  | text s => .scalar (Text.halves s) false
  | a => .scalar a.json true

theorem isAlphanum_of_isDigit {c : Char} (hc : Text.isDigit c = true) : c.isAlphanum = true :=
  forall_of_isDigit (P := (·.isAlphanum = true)) (by decide) hc

theorem isWordChar_of_isNumberChar {c : Char} (hc : isNumberChar c = true) :
    Yaml.isWordChar c = true := by
  simp only [isNumberChar, Bool.or_eq_true, beq_iff_eq] at hc
  rcases hc with (((hc | rfl) | rfl) | rfl) | rfl
  · rw [Yaml.isWordChar, isAlphanum_of_isDigit hc]
    rfl
  all_goals rfl

theorem isWord_of_isNumberChar {negative : Bool} {c : Char} {cs : List Char}
    (hc : Text.isDigit c = true) (hcs : ∀ d ∈ c :: cs, isNumberChar d = true) :
    Yaml.IsWord ((if negative then ['-'] else []) ++ c :: cs) := by
  refine ⟨c, cs, isAlphanum_of_isDigit hc, fun d hd =>
    isWordChar_of_isNumberChar (hcs d (List.mem_cons_of_mem c hd)), ?_⟩
  cases negative with
  | true => exact .inr rfl
  | false => exact .inl rfl

theorem isWord_of_toList {word : String} {c : Char} {cs : List Char} (hword : word.toList = c :: cs)
    (hc : c.isAlphanum = true) (hcs : cs.all Yaml.isWordChar = true) : Yaml.IsWord word.toList :=
  ⟨c, cs, hc, List.all_eq_true.1 hcs, .inl hword⟩

theorem toList_nan : "NaN".toList = ['N', 'a', 'N'] := by decide

theorem toList_infinity : "Infinity".toList = ['I', 'n', 'f', 'i', 'n', 'i', 't', 'y'] := by decide

theorem toList_neg_infinity : "-Infinity".toList = '-' :: "Infinity".toList := by decide

theorem isWord_floatText (x : Binary64) : Yaml.IsWord (Json.floatText x).toList := by
  unfold Json.floatText
  split
  · exact isWord_of_toList toList_nan (by decide) (by decide)
  · exact isWord_of_toList toList_infinity (by decide) (by decide)
  · exact ⟨'I', ['n', 'f', 'i', 'n', 'i', 't', 'y'], by decide, List.all_eq_true.1 (by decide),
      .inr (toList_neg_infinity.trans (congrArg _ toList_infinity))⟩
  · next hx =>
    obtain ⟨cs, whole, part, power, htext, hbody⟩ := exists_isFloatBody hx
    obtain ⟨d, ds, rfl, hd⟩ := hbody.exists_digit
    rw [htext]
    exact isWord_of_isNumberChar hd hbody.isNumberChar

theorem isWord_decimal {n : Int} (hn : (Atom.int n).prints = true) :
    Yaml.IsWord (decimal n).toList := by
  obtain ⟨text, htext⟩ := Option.isSome_iff_exists.1 hn
  obtain ⟨hchars, -⟩ := toList_integerText? htext
  have hrow := isDigitRow_toDigits n.natAbs
  obtain ⟨d, ds, hds⟩ := List.exists_cons_of_ne_nil
    (List.ne_nil_of_length_pos (Nat.length_toDigits_pos (b := 10) (n := n.natAbs)))
  rw [hds] at hchars hrow
  rw [decimal, htext, Option.getD_some, hchars]
  have h : Yaml.IsWord ((if decide (n < 0) then ['-'] else []) ++ d :: ds) :=
    isWord_of_isNumberChar (hrow d List.mem_cons_self) fun e he => isNumberChar_of_isDigit (hrow e he)
  simpa only [decide_eq_true_eq] using h

/-- What is not a text is a word or a number. -/
theorem isWord_json {a : Atom} (ha : ∀ s, a ≠ text s) (hprints : a.prints = true) :
    Yaml.IsWord a.json.toList := by
  cases a with
  | null =>
    have hnull : "null".toList = ['n', 'u', 'l', 'l'] := by decide
    exact isWord_of_toList hnull (by decide) (by decide)
  | bool b =>
    cases b with
    | true =>
      have htrue : "true".toList = ['t', 'r', 'u', 'e'] := by decide
      exact isWord_of_toList htrue (by decide) (by decide)
    | false =>
      have hfalse : "false".toList = ['f', 'a', 'l', 's', 'e'] := by decide
      exact isWord_of_toList hfalse (by decide) (by decide)
  | int n => exact isWord_decimal hprints
  | float x => exact isWord_floatText x
  | text s => exact absurd rfl (ha s)

theorem ofPlain_null : Yaml.Tag.ofPlain "null" = .null := by
  rw [Yaml.Tag.ofPlain, show "null".toList = ['n', 'u', 'l', 'l'] by decide]
  decide

theorem ofPlain_nan : Yaml.Tag.ofPlain "NaN" = .str := by
  rw [Yaml.Tag.ofPlain, toList_nan]
  decide

theorem ofPlain_infinity : Yaml.Tag.ofPlain "Infinity" = .str := by
  rw [Yaml.Tag.ofPlain, toList_infinity]
  decide

theorem ofPlain_neg_infinity : Yaml.Tag.ofPlain "-Infinity" = .str := by
  rw [Yaml.Tag.ofPlain, toList_neg_infinity, toList_infinity]
  decide

theorem ofScalar?_scalar (a : Atom) : ofScalar? a.scalar = some a := by
  cases a <;> rfl

/-- A floating-point number is read as an atom. -/
theorem exists_scalar?_floatText (x : Binary64) : ∃ a : Atom,
    (Yaml.Tag.ofPlain (Json.floatText x)).scalar? (Json.floatText x) = some (.ok a.scalar) := by
  unfold Json.floatText
  split
  · exact ⟨text "NaN", by rw [ofPlain_nan]; rfl⟩
  · exact ⟨text "Infinity", by rw [ofPlain_infinity]; rfl⟩
  · exact ⟨text "-Infinity", by rw [ofPlain_neg_infinity]; rfl⟩
  · next hx =>
    obtain ⟨cs, whole, part, power, htext, hbody⟩ := exists_isFloatBody hx
    rw [Yaml.Tag.ofPlain_of_isFloatBody hbody htext]
    cases part with
    | none => exact ⟨text x.text, rfl⟩
    | some ds =>
      obtain ⟨y, hy⟩ := floatValue_of_isFloatBody hbody htext
      exact ⟨float y, by
        rw [Option.isSome_some, if_pos rfl, Yaml.Tag.scalar?, hy]
        rfl⟩

/-- The text of an atom that is not a text means the atom that is read back. -/
theorem scalar?_json {a : Atom} (ha : ∀ s, a ≠ text s) (hprints : a.prints = true) :
    (Yaml.Tag.ofPlain a.json).scalar? a.json = some (.ok a.viaJson.scalar) := by
  cases a with
  | null => rw [json, ofPlain_null]; rfl
  | bool b => cases b <;> cbv
  | int n =>
    obtain ⟨text, htext⟩ := Option.isSome_iff_exists.1 hprints
    rw [json, decimal, htext]
    exact scalar?_integerText? htext
  | float x =>
    obtain ⟨a, ha⟩ := exists_scalar?_floatText x
    rw [json, ha, viaJson, ha]
    dsimp only
    rw [ofScalar?_scalar, Option.getD_some]
  | text s => exact absurd rfl (ha s)

end Atom

end Tree

/-! ## Blocks -/

namespace Json

theorem toList_newline (depth : Nat) :
    (newline depth).toList = '\n' :: List.replicate (2 * depth) ' ' := by
  have hspaces : ∀ n, ("".pushn ' ' n).toList = List.replicate n ' ' := by
    intro n
    induction n with
    | zero => rfl
    | succ n ih =>
      rw [String.pushn, Nat.repeat, String.toList_push, List.replicate_succ']
      exact congrArg (· ++ _) ih
  rw [newline, String.toList_append, hspaces]
  rfl

/-- What follows a part of a block: the other parts after a comma each, and the closing bracket. -/
def blockRest (depth : Nat) (right : String) : List String → List Char
  | [] => (newline depth).toList ++ right.toList
  | p :: ps => ',' :: ((newline (depth + 1)).toList ++ (p.toList ++ blockRest depth right ps))

theorem toList_block_nil (depth : Nat) (left right : String) :
    (block depth left right []).toList = left.toList ++ right.toList :=
  String.toList_append ..

theorem toList_block_cons (depth : Nat) (left right p : String) (ps : List String) :
    (block depth left right (p :: ps)).toList =
      left.toList ++ ((newline (depth + 1)).toList ++ (p.toList ++ blockRest depth right ps)) := by
  have hparts : ∀ p : String, (String.intercalate ("," ++ newline (depth + 1)) (p :: ps)).toList ++
      ((newline depth).toList ++ right.toList) = p.toList ++ blockRest depth right ps := by
    induction ps with
    | nil => exact fun p => by rw [String.intercalate_singleton]; rfl
    | cons q ps ih =>
      intro p
      rw [String.intercalate_cons_cons, String.toList_append, String.toList_append,
        String.toList_append, List.append_assoc, List.append_assoc, List.append_assoc, ih q]
      rfl
  rw [block, List.isEmpty_cons, if_neg Bool.false_ne_true]
  simp only [String.toList_append, List.append_assoc, hparts]

end Json

namespace Tree

open Yaml

/-! ## Tokens -/

mutual

/-- The tokens of the JSON text of a tree. -/
def tokens : Tree → List Token
  | leaf a => [a.token]
  | list ts => .flowSequence :: itemTokens true ts
  | dict fs => .flowMapping :: pairTokens true fs

/-- The tokens of the items of a list and of the bracket behind them.  There is no comma before the
first one. -/
def itemTokens (first : Bool) : List Tree → List Token
  | [] => [.flowSequenceEnd]
  | t :: ts => (if first then [] else [.flowEntry]) ++ (t.tokens ++ itemTokens false ts)

/-- The tokens of the entries of a mapping and of the bracket behind them. -/
def pairTokens (first : Bool) : List (Key × Tree) → List Token
  | [] => [.flowMappingEnd]
  | (k, t) :: fs => (if first then [] else [.flowEntry]) ++
      (.key :: .scalar k.nameViaJson false :: .value :: (t.tokens ++ pairTokens false fs))

end

mutual

/-- Whether the texts of all keys are short enough for keys in YAML. -/
def HasShortKeys : Tree → Prop
  | leaf _ => True
  | list ts => AllHaveShortKeys ts
  | dict fs => EntriesHaveShortKeys fs

/-- Whether this is so in each of some trees. -/
def AllHaveShortKeys : List Tree → Prop
  | [] => True
  | t :: ts => t.HasShortKeys ∧ AllHaveShortKeys ts

/-- Whether this is so for the entries of a mapping and in their trees. -/
def EntriesHaveShortKeys : List (Key × Tree) → Prop
  | [] => True
  | (k, t) :: fs => ((Json.quoted k.name).length ≤ Scan.longestKey ∧ t.HasShortKeys) ∧
      EntriesHaveShortKeys fs

end

/-! ## The scan -/

section

variable {s : Scan} {toks : List Token} {level depth : Nat} {rest more : List Char}

theorem at_of_newline (hs : s.At toks level ((Json.newline depth).toList ++ rest)) :
    s.At toks level rest := by
  have hgap : ∀ c ∈ (Json.newline depth).toList, isGap c = true := by
    rw [Json.toList_newline]
    exact List.forall_mem_cons.2 ⟨rfl, fun c hc => List.eq_of_mem_replicate hc ▸ rfl⟩
  exact ⟨hs.toCalm, hs.tokens, hs.level, hs.rest.trans (List.dropWhile_append_of_pos hgap)⟩

theorem dropWhile_isGap_of_isWord {cs : List Char} (hcs : IsWord cs) :
    (cs ++ more).dropWhile isGap = cs ++ more := by
  obtain ⟨x, cs', hx, hline, hspace, -⟩ := hcs.exists_head
  have hgap : isGap x ≠ true := by
    rw [isGap, beq_false_of_ne hspace, beq_false_of_ne (hline.ne_of_toNat (by decide))]
    exact Bool.false_ne_true
  rw [hx, List.cons_append, List.dropWhile_cons_of_neg hgap]

theorem dropWhile_isGap_quoted (text : String) :
    ((Json.quoted text).toList ++ more).dropWhile isGap = (Json.quoted text).toList ++ more := by
  rw [toList_quoted_eq]
  rfl

theorem endsPart_blockRest {right : String} {x : Char} (hright : right.toList = [x])
    (hx : x = ']' ∨ x = '\x7d') (ps : List String) :
    EndsPart (Json.blockRest depth right ps ++ more) := by
  cases ps with
  | nil =>
    rw [Json.blockRest, Json.toList_newline, hright, List.cons_append, List.cons_append,
      List.append_assoc]
    exact .bracket _ _ hx
  | cons p ps => exact .comma _

/-- Whether the JSON text of a tree is split into the tree's tokens: a scan that is at this text
yields what it yields after the tokens. -/
structure Splits (t : Tree) : Prop where
  yields : ∀ {s : Scan} {toks ts : List Token} {level : Nat} {more : List Char} (depth : Nat),
    s.At toks level ((t.json depth).toList ++ more) →
    (∀ a, t = leaf a → level ≠ 0 ∧ EndsPart more) →
    (∀ s' : Scan, s'.At (toks ++ t.tokens) level more → s'.Yields ts) → s.Yields ts

theorem splits_leaf {a : Atom} (hprints : a.prints = true) : (leaf a).Splits := by
  refine ⟨fun {s toks ts level more} depth hs hleaf hnext => ?_⟩
  obtain ⟨hlevel, hmore⟩ := hleaf a rfl
  obtain ⟨level, rfl⟩ := Nat.exists_eq_succ_of_ne_zero hlevel
  by_cases ha : ∃ text, a = .text text
  · obtain ⟨text, rfl⟩ := ha
    exact hs.yields_quoted (dropWhile_isGap_quoted text) hnext
  · have hne : ∀ text, a ≠ .text text := fun text h => ha ⟨text, h⟩
    have hword := Atom.isWord_json hne hprints
    have htoken : a.token = .scalar (String.ofList a.json.toList) true := by
      rw [String.ofList_toList]
      cases a with
      | text text => exact absurd rfl (hne text)
      | null | bool | int | float => rfl
    refine hs.yields_word hword hmore (dropWhile_isGap_of_isWord hword) fun s' hs' => hnext s' ?_
    rwa [tokens, htoken]

/-- Whether this is so for the items of a list that follow another one. -/
structure SplitsItems (items : List Tree) : Prop where
  yields : ∀ {s : Scan} {toks ts : List Token} {level : Nat} {more : List Char} (depth : Nat),
    s.At toks (level + 1) (Json.blockRest depth "]" (jsonItems (depth + 1) items) ++ more) →
    (∀ s' : Scan, s'.At (toks ++ itemTokens false items) level more → s'.Yields ts) → s.Yields ts

/-- Whether this is so for the entries of a mapping that follow another one. -/
structure SplitsPairs (fs : List (Key × Tree)) : Prop where
  yields : ∀ {s : Scan} {toks ts : List Token} {level : Nat} {more : List Char} (depth : Nat),
    s.At toks (level + 1) (Json.blockRest depth "\x7d" (jsonEntries (depth + 1) fs) ++ more) →
    (∀ s' : Scan, s'.At (toks ++ pairTokens false fs) level more → s'.Yields ts) → s.Yields ts

theorem splitsItems_nil : SplitsItems [] := by
  refine ⟨fun {s toks ts level more} depth hs hnext => ?_⟩
  rw [jsonItems, Json.blockRest, List.append_assoc] at hs
  exact (at_of_newline hs).yields_close (x := ']') rfl (.inl ⟨rfl, rfl⟩) hnext

theorem splitsPairs_nil : SplitsPairs [] := by
  refine ⟨fun {s toks ts level more} depth hs hnext => ?_⟩
  rw [jsonEntries, Json.blockRest, List.append_assoc] at hs
  exact (at_of_newline hs).yields_close (x := '\x7d') rfl (.inr ⟨rfl, rfl⟩) hnext

theorem Splits.items_cons {t : Tree} {items : List Tree} (ht : t.Splits)
    (hitems : SplitsItems items) : SplitsItems (t :: items) := by
  refine ⟨fun {s toks ts level more} depth hs hnext => ?_⟩
  rw [jsonItems, Json.blockRest, List.cons_append, List.append_assoc, List.append_assoc] at hs
  refine hs.yields_comma rfl fun s₁ hs₁ _ => ?_
  refine ht.yields _ (at_of_newline hs₁) (fun _ _ => ⟨Nat.succ_ne_zero _, ?_⟩) fun s₂ hs₂ => ?_
  · exact endsPart_blockRest (x := ']') rfl (.inl rfl) _
  · refine hitems.yields depth hs₂ fun s₃ hs₃ => hnext s₃ ?_
    rwa [List.append_assoc, List.append_assoc] at hs₃

/-- A quoted name, a colon and a value are the tokens of an entry. -/
theorem Splits.entry {t : Tree} {k : Key} {ts : List Token} (ht : t.Splits)
    (hshort : (Json.quoted k.name).length ≤ Scan.longestKey)
    (hs : s.At toks (level + 1) ((Json.quoted k.name ++ ": " ++ t.json depth).toList ++ more))
    (hkey : s.keyAllowed = true) (hmore : EndsPart more)
    (hnext : ∀ s' : Scan,
      s'.At (toks ++ .key :: .scalar k.nameViaJson false :: .value :: t.tokens) (level + 1) more →
        s'.Yields ts) : s.Yields ts := by
  have hchars : (Json.quoted k.name ++ ": " ++ t.json depth).toList ++ more =
      (Json.quoted k.name).toList ++ ':' :: ' ' :: ((t.json depth).toList ++ more) := by
    simp only [String.toList_append, List.append_assoc]
    rfl
  rw [hchars] at hs
  refine hs.yields_key hkey hshort (dropWhile_isGap_quoted _) fun s₁ hs₁ => ?_
  refine ht.yields depth ⟨hs₁.toCalm, hs₁.tokens, hs₁.level, hs₁.rest⟩
    (fun _ _ => ⟨Nat.succ_ne_zero _, hmore⟩) fun s₂ hs₂ => hnext s₂ ?_
  rwa [List.append_assoc] at hs₂

theorem Splits.pairs_cons {t : Tree} {k : Key} {fs : List (Key × Tree)} (ht : t.Splits)
    (hshort : (Json.quoted k.name).length ≤ Scan.longestKey) (hfs : SplitsPairs fs) :
    SplitsPairs ((k, t) :: fs) := by
  refine ⟨fun {s toks ts level more} depth hs hnext => ?_⟩
  rw [jsonEntries, Json.blockRest, List.cons_append, List.append_assoc, List.append_assoc] at hs
  refine hs.yields_comma rfl fun s₁ hs₁ hkey => ?_
  refine ht.entry hshort (at_of_newline hs₁) hkey (endsPart_blockRest (x := '\x7d') rfl (.inr rfl) _)
    fun s₂ hs₂ => ?_
  refine hfs.yields depth hs₂ fun s₃ hs₃ => hnext s₃ ?_
  rwa [List.append_assoc, List.append_assoc] at hs₃

theorem splits_list_nil : (list []).Splits := by
  refine ⟨fun {s toks ts level more} depth hs _ hnext => ?_⟩
  rw [json, jsonItems, Json.toList_block_nil, List.append_assoc] at hs
  refine hs.yields_open (x := '[') rfl (.inl ⟨rfl, rfl⟩) fun s₁ hs₁ _ => ?_
  have hclose : (']' :: more).dropWhile Yaml.isGap = ']' :: more := rfl
  refine hs₁.yields_close hclose (.inl ⟨rfl, rfl⟩) fun s₂ hs₂ => hnext s₂ ?_
  rwa [List.append_assoc] at hs₂

theorem splits_dict_nil : (dict []).Splits := by
  refine ⟨fun {s toks ts level more} depth hs _ hnext => ?_⟩
  rw [json, jsonEntries, Json.toList_block_nil, List.append_assoc] at hs
  refine hs.yields_open (x := '\x7b') rfl (.inr ⟨rfl, rfl⟩) fun s₁ hs₁ _ => ?_
  have hclose : ('\x7d' :: more).dropWhile Yaml.isGap = '\x7d' :: more := rfl
  refine hs₁.yields_close hclose (.inr ⟨rfl, rfl⟩) fun s₂ hs₂ => hnext s₂ ?_
  rwa [List.append_assoc] at hs₂

theorem Splits.list_cons {t : Tree} {items : List Tree} (ht : t.Splits)
    (hitems : SplitsItems items) : (list (t :: items)).Splits := by
  refine ⟨fun {s toks ts level more} depth hs _ hnext => ?_⟩
  rw [json, jsonItems, Json.toList_block_cons, List.append_assoc, List.append_assoc,
    List.append_assoc] at hs
  refine hs.yields_open (x := '[') rfl (.inl ⟨rfl, rfl⟩) fun s₁ hs₁ _ => ?_
  refine ht.yields _ (at_of_newline hs₁) (fun _ _ => ⟨Nat.succ_ne_zero _, ?_⟩) fun s₂ hs₂ => ?_
  · exact endsPart_blockRest (x := ']') rfl (.inl rfl) _
  · refine hitems.yields depth hs₂ fun s₃ hs₃ => hnext s₃ ?_
    rwa [List.append_assoc, List.append_assoc] at hs₃

theorem Splits.dict_cons {t : Tree} {k : Key} {fs : List (Key × Tree)} (ht : t.Splits)
    (hshort : (Json.quoted k.name).length ≤ Scan.longestKey) (hfs : SplitsPairs fs) :
    (dict ((k, t) :: fs)).Splits := by
  refine ⟨fun {s toks ts level more} depth hs _ hnext => ?_⟩
  rw [json, jsonEntries, Json.toList_block_cons, List.append_assoc, List.append_assoc,
    List.append_assoc] at hs
  refine hs.yields_open (x := '\x7b') rfl (.inr ⟨rfl, rfl⟩) fun s₁ hs₁ hkey => ?_
  refine ht.entry hshort (at_of_newline hs₁) hkey (endsPart_blockRest (x := '\x7d') rfl (.inr rfl) _)
    fun s₂ hs₂ => ?_
  refine hfs.yields depth hs₂ fun s₃ hs₃ => hnext s₃ ?_
  rwa [List.append_assoc, List.append_assoc] at hs₃

mutual

/-- The JSON text of a tree is split into its tokens. -/
theorem splits : ∀ {t : Tree}, t.prints = true → t.HasShortKeys → t.Splits
  | leaf _, hprints, _ => splits_leaf hprints
  | list [], _, _ => splits_list_nil
  | list (t :: ts), hprints, hshort => by
    rw [prints, printsAll, Bool.and_eq_true] at hprints
    rw [HasShortKeys, AllHaveShortKeys] at hshort
    exact (splits hprints.1 hshort.1).list_cons (splitsItems hprints.2 hshort.2)
  | dict [], _, _ => splits_dict_nil
  | dict ((k, t) :: fs), hprints, hshort => by
    rw [prints, printsEntries, Bool.and_eq_true, Bool.and_eq_true] at hprints
    rw [HasShortKeys, EntriesHaveShortKeys] at hshort
    exact (splits hprints.1.2 hshort.1.2).dict_cons hshort.1.1 (splitsPairs hprints.2 hshort.2)

theorem splitsItems : ∀ {ts : List Tree}, printsAll ts = true → AllHaveShortKeys ts →
    SplitsItems ts
  | [], _, _ => splitsItems_nil
  | t :: ts, hprints, hshort => by
    rw [printsAll, Bool.and_eq_true] at hprints
    rw [AllHaveShortKeys] at hshort
    exact (splits hprints.1 hshort.1).items_cons (splitsItems hprints.2 hshort.2)

theorem splitsPairs : ∀ {fs : List (Key × Tree)}, printsEntries fs = true →
    EntriesHaveShortKeys fs → SplitsPairs fs
  | [], _, _ => splitsPairs_nil
  | (k, t) :: fs, hprints, hshort => by
    rw [printsEntries, Bool.and_eq_true, Bool.and_eq_true] at hprints
    rw [EntriesHaveShortKeys] at hshort
    exact (splits hprints.1.2 hshort.1.2).pairs_cons hshort.1.1 (splitsPairs hprints.2 hshort.2)

end

end

/-! ## Characters -/

/-- Whether a text has no characters but line feeds and those that take a place in a line. -/
def IsWritten (s : String) : Prop := ∀ c ∈ s.toList, InLine c ∨ c = '\n'

theorem IsWritten.append {s s' : String} (hs : IsWritten s) (hs' : IsWritten s') :
    IsWritten (s ++ s') := by
  rw [IsWritten, String.toList_append, List.forall_mem_append]
  exact ⟨hs, hs'⟩

theorem isWritten_of_inLine {s : String} (hs : ∀ c ∈ s.toList, InLine c) : IsWritten s :=
  fun c hc => .inl (hs c hc)

theorem isWritten_newline (depth : Nat) : IsWritten (Json.newline depth) := by
  rw [IsWritten, Json.toList_newline]
  refine List.forall_mem_cons.2 ⟨.inr rfl, fun c hc => .inl ?_⟩
  rw [List.eq_of_mem_replicate hc]
  decide

theorem isWritten_block {depth : Nat} {left right : String} {parts : List String}
    (hleft : IsWritten left) (hright : IsWritten right) (hparts : ∀ p ∈ parts, IsWritten p) :
    IsWritten (Json.block depth left right parts) := by
  have hcomma : IsWritten ("," ++ Json.newline (depth + 1)) :=
    .append (isWritten_of_inLine (by simp [InLine])) (isWritten_newline _)
  have hinner : IsWritten (String.intercalate ("," ++ Json.newline (depth + 1)) parts) := by
    induction parts with
    | nil => exact isWritten_of_inLine (by simp)
    | cons p parts ih =>
      obtain ⟨hp, hparts⟩ := List.forall_mem_cons.1 hparts
      cases parts with
      | nil => rwa [String.intercalate_singleton]
      | cons q parts =>
        rw [String.intercalate_cons_cons]
        exact (hp.append hcomma).append (ih hparts)
  rw [Json.block]
  split
  · exact hleft.append hright
  · exact (((hleft.append (isWritten_newline _)).append hinner).append (isWritten_newline _)).append
      hright

theorem isWritten_quoted (s : String) : IsWritten (Json.quoted s) :=
  isWritten_of_inLine (inLine_quoted s)

theorem isWritten_atom {a : Atom} (hprints : a.prints = true) : IsWritten a.json := by
  by_cases ha : ∃ text, a = .text text
  · obtain ⟨text, rfl⟩ := ha
    exact isWritten_quoted text
  · have hword := Atom.isWord_json (fun text h => ha ⟨text, h⟩) hprints
    exact isWritten_of_inLine fun c hc => inLine_of_isWordChar (hword.forall_isWordChar c hc)

mutual

theorem isWritten_json : ∀ {t : Tree}, t.prints = true → ∀ depth, IsWritten (t.json depth)
  | leaf _, hprints, _ => isWritten_atom hprints
  | list _, hprints, _ =>
    isWritten_block (isWritten_of_inLine (by simp [InLine])) (isWritten_of_inLine (by simp [InLine]))
      (isWritten_jsonItems hprints _)
  | dict _, hprints, _ =>
    isWritten_block (isWritten_of_inLine (by simp [InLine])) (isWritten_of_inLine (by simp [InLine]))
      (isWritten_jsonEntries hprints _)

theorem isWritten_jsonItems : ∀ {ts : List Tree}, printsAll ts = true → ∀ depth,
    ∀ p ∈ jsonItems depth ts, IsWritten p
  | [], _, _ => fun _ hp => absurd hp List.not_mem_nil
  | t :: ts, hprints, depth => by
    rw [printsAll, Bool.and_eq_true] at hprints
    exact List.forall_mem_cons.2
      ⟨isWritten_json hprints.1 depth, isWritten_jsonItems hprints.2 depth⟩

theorem isWritten_jsonEntries : ∀ {fs : List (Key × Tree)}, printsEntries fs = true → ∀ depth,
    ∀ p ∈ jsonEntries depth fs, IsWritten p
  | [], _, _ => fun _ hp => absurd hp List.not_mem_nil
  | (k, t) :: fs, hprints, depth => by
    rw [printsEntries, Bool.and_eq_true, Bool.and_eq_true] at hprints
    have hname : IsWritten (Json.quoted k.name ++ ": ") :=
      (isWritten_quoted _).append (isWritten_of_inLine (by simp [InLine]))
    exact List.forall_mem_cons.2
      ⟨hname.append (isWritten_json hprints.1.2 depth), isWritten_jsonEntries hprints.2 depth⟩

end

theorem IsWritten.all_isAllowed {s : String} (hs : IsWritten s) : s.toList.all isAllowed = true :=
  List.all_eq_true.2 fun c hc => (hs c hc).elim (·.isAllowed_eq_true) fun h => h ▸ by decide

/-- Such a text does not begin with a mark of byte order. -/
theorem IsWritten.peek_ne {s : String} (hs : IsWritten s) :
    (Cursor.mk s.toList 0 0 0).peek.toNat ≠ 0xfeff := by
  rw [IsWritten] at hs
  generalize s.toList = cs at hs
  cases cs with
  | nil => decide
  | cons c cs =>
    rw [Cursor.peek_of_rest rfl]
    rcases hs c List.mem_cons_self with hc | rfl
    · have := hc.2
      omega
    · decide

/-- The tokens of the JSON text of a collection. -/
theorem tokens_json {t : Tree} (ht : ∀ a, t ≠ leaf a) (hprints : t.prints = true)
    (hshort : t.HasShortKeys) : Yaml.tokens (t.json 0) = .ok t.tokens := by
  have hwritten := isWritten_json hprints 0
  have hstart : Scan.At { cursor := { rest := (t.json 0).toList } } [] 0 ((t.json 0).toList ++ []) :=
    ⟨⟨rfl, fun k hk => absurd hk List.not_mem_nil⟩, rfl, rfl, by rw [List.append_nil]⟩
  have hyields := (splits hprints hshort).yields 0 hstart (fun a ha => absurd ha (ht a))
    fun s' hs' => hs'.yields_nil rfl
  rw [Yaml.tokens]
  dsimp only
  rw [hwritten.all_isAllowed, if_neg (by decide), if_neg hwritten.peek_ne]
  exact hyields _ (Nat.lt_succ_self _)

end Tree

end Dotpath

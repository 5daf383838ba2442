import Dotpath.Proofs.Document.JsonReading
import Dotpath.Settings.Basic

/-!
# Words of settings

Words are compared without surrounding blanks and without the case of letters (`normalWord_pad`,
`normalWord_congr`).  The text of a number, a truth value or a container is neither blank nor a word
of `outputFormats` or `keyTypes`, as its first character tells (`IsDocument.looksOther_text`,
`LooksOther.normalWord`).
-/

namespace Dotpath

/-! ## Words -/

namespace Text

variable {c : Char} {cs : List Char}

/-- Blanks around a text do not matter. -/
theorem strip_pad {front back : List Char} (hfront : ∀ c ∈ front, isBlank c = true)
    (hback : ∀ c ∈ back, isBlank c = true) (cs : List Char) :
    strip (front ++ cs ++ back) = strip cs := by
  have hrev : ∀ c ∈ back.reverse, isBlank c = true := fun c hc => hback c (List.mem_reverse.1 hc)
  rw [strip, List.append_assoc, List.dropWhile_append_of_pos hfront, List.dropWhile_append, strip]
  split
  · next hempty =>
    have hnone : List.dropWhile isBlank back = [] := List.dropWhile_eq_nil_iff.2 hback
    rw [hnone, List.isEmpty_iff.1 hempty]
  · rw [List.reverse_append, List.dropWhile_append_of_pos hrev]

theorem strip_map {f : Char → Char} (hf : ∀ c, isBlank (f c) = isBlank c) (cs : List Char) :
    strip (cs.map f) = (strip cs).map f := by
  have hcomp : isBlank ∘ f = isBlank := funext hf
  rw [strip, List.dropWhile_map, hcomp, ← List.map_reverse, List.dropWhile_map, hcomp,
    ← List.map_reverse, strip]

/-- A text that begins with no blank keeps its first character. -/
theorem exists_strip_cons (hc : isBlank c = false) (cs : List Char) :
    ∃ ds, strip (c :: cs) = c :: ds := by
  rw [strip, List.dropWhile_cons_of_neg (by simp [hc]), List.reverse_cons, List.dropWhile_append]
  split
  · rw [List.dropWhile_cons_of_neg (by simp [hc])]
    exact ⟨[], rfl⟩
  · rw [List.reverse_append]
    exact ⟨_, rfl⟩

theorem toNat_of_isUpper (hc : c.isUpper = true) :
    65 ≤ c.toNat ∧ c.toNat ≤ 90 ∧ c.toLower.toNat = c.toNat + 32 := by
  have hrange : 65 ≤ c.toNat ∧ c.toNat ≤ 90 := by
    simpa [Char.isUpper, UInt32.le_iff_toNat_le] using hc
  refine ⟨hrange.1, hrange.2, ?_⟩
  rw [Char.toLower_eq_of_isUpper hc, Char.toNat_ofNat, if_pos]
  exact .inl (by omega)

theorem isBlank_toLower (c : Char) : isBlank c.toLower = isBlank c := by
  by_cases hc : c.isUpper = true
  · obtain ⟨hlow, hhigh, hlower⟩ := toNat_of_isUpper hc
    have hcapital : isBlank c = false := by
      simp only [isBlank, Bool.or_eq_false_iff, Bool.and_eq_false_iff, decide_eq_false_iff_not,
        beq_eq_false_iff_ne]
      omega
    have hsmall : isBlank c.toLower = false := by
      simp only [isBlank, hlower, Bool.or_eq_false_iff, Bool.and_eq_false_iff,
        decide_eq_false_iff_not, beq_eq_false_iff_ne]
      omega
    rw [hcapital, hsmall]
  · rw [Char.toLower_eq_of_not_isUpper hc]

theorem lowerChar_of_lt (hc : c.toNat < 128) : lowerChar c = [c.toLower] := if_pos hc

theorem lowerChar_toLower (c : Char) : lowerChar c.toLower = lowerChar c := by
  by_cases hc : c.isUpper = true
  · obtain ⟨-, hhigh, hlower⟩ := toNat_of_isUpper hc
    rw [lowerChar_of_lt (by omega), lowerChar_of_lt (by omega), Char.toLower_toLower_eq_toLower]
  · rw [Char.toLower_eq_of_not_isUpper hc]

theorem lower_map_toLower (cs : List Char) : lower (cs.map Char.toLower) = lower cs := by
  rw [lower, List.flatMap_map]
  exact List.flatMap_congr fun c _ => lowerChar_toLower c

end Text

theorem normalWord_pad {s t : String} {front back : List Char}
    (hfront : ∀ c ∈ front, Text.isBlank c = true) (hback : ∀ c ∈ back, Text.isBlank c = true)
    (ht : t.toList = front ++ s.toList ++ back) : normalWord t = normalWord s := by
  rw [normalWord, ht, Text.strip_pad hfront hback, normalWord]

theorem normalWord_congr {s t : String}
    (hst : s.toList.map Char.toLower = t.toList.map Char.toLower) : normalWord s = normalWord t := by
  have hlower (u : String) :
      normalWord u = .ofList (Text.lower (Text.strip (u.toList.map Char.toLower))) := by
    rw [Text.strip_map Text.isBlank_toLower, Text.lower_map_toLower, normalWord]
  rw [hlower, hst, ← hlower]

/-! ## Texts of other values -/

/-- The characters with which the text of a number, a truth value or a container begins, an infinity
apart. -/
def otherHeads : List Char :=
  ['-', '[', '\x7b', 'T', 'F', 'n', '0', '1', '2', '3', '4', '5', '6', '7', '8', '9']

/-- The characters with which the words of the choices begin. -/
def choiceHeads : List Char := ['j', 'y', 's', 'i']

theorem head?_of_mem_choices {w : String} (hw : w ∈ outputFormats ∨ w ∈ keyTypes) :
    ∃ c ∈ choiceHeads, w.toList.head? = some c := by
  simp only [outputFormats, keyTypes, List.mem_cons, List.not_mem_nil, or_false] at hw
  rcases hw with (rfl | rfl) | rfl | rfl
  · exact ⟨'j', by decide, rfl⟩
  · exact ⟨'y', by decide, rfl⟩
  · exact ⟨'s', by decide, rfl⟩
  · exact ⟨'i', by decide, rfl⟩

/-- Whether a text is one of a number, a truth value or a container, as far as its beginning tells. -/
def LooksOther (t : String) : Prop := t = "inf" ∨ ∃ c ∈ otherHeads, ∃ cs, t.toList = c :: cs

/-- No such text is blank or a word of a choice. -/
theorem LooksOther.normalWord {t : String} (ht : LooksOther t) :
    normalWord t ≠ "" ∧ Dotpath.normalWord t ∉ outputFormats ∧ Dotpath.normalWord t ∉ keyTypes := by
  rcases ht with rfl | ⟨c, hc, cs, ht⟩
  · have hinf : Dotpath.normalWord "inf" = "inf" := by cbv
    rw [hinf]
    decide
  · have hheads : otherHeads.all (fun c => !Text.isBlank c && decide (c.toNat < 128) &&
        !choiceHeads.contains c.toLower) = true := by decide
    have hhead := List.all_eq_true.1 hheads c hc
    simp only [Bool.and_eq_true, Bool.not_eq_true', decide_eq_true_eq, List.contains_eq_mem,
      decide_eq_false_iff_not] at hhead
    obtain ⟨⟨hblank, hascii⟩, hother⟩ := hhead
    obtain ⟨ds, hds⟩ := Text.exists_strip_cons hblank cs
    have hhead : (Dotpath.normalWord t).toList.head? = some c.toLower := by
      rw [Dotpath.normalWord, String.toList_ofList, ht, hds, Text.lower, List.flatMap_cons,
        Text.lowerChar_of_lt hascii]
      rfl
    have hno : ¬ (Dotpath.normalWord t ∈ outputFormats ∨ Dotpath.normalWord t ∈ keyTypes) := by
      intro hw
      obtain ⟨d, hd, hhead'⟩ := head?_of_mem_choices hw
      cases hhead.symm.trans hhead'
      exact hother hd
    refine ⟨fun h => ?_, not_or.1 hno⟩
    rw [h] at hhead
    cases hhead

theorem mem_otherHeads_of_isDigit {c : Char} (hc : Text.isDigit c = true) : c ∈ otherHeads := by
  have hall : ∀ k < 10, Char.ofNat (48 + k) ∈ otherHeads := by decide
  obtain ⟨hlow, hhigh⟩ := toNat_of_isDigit hc
  have hmem := hall (c.toNat - 48) (by omega)
  rwa [Nat.add_sub_of_le hlow, Char.ofNat_toNat] at hmem

theorem exists_cons_toDigits (n : Nat) : ∃ c ∈ otherHeads, ∃ cs, Nat.toDigits 10 n = c :: cs := by
  obtain ⟨c, cs, hcs⟩ := List.exists_cons_of_ne_nil (Nat.toDigits_ne_nil : Nat.toDigits 10 n ≠ [])
  refine ⟨c, mem_otherHeads_of_isDigit (isDigitRow_toString n c ?_), cs, hcs⟩
  rw [toList_toString, hcs]
  exact List.mem_cons_self

theorem exists_cons_digitsText (f : ShortestFormat) (d : Nat) (k : Int) :
    ∃ c ∈ otherHeads, ∃ cs, (f.digitsText d k).toList = c :: cs := by
  obtain ⟨c, hc, cs, hds⟩ := exists_cons_toDigits d
  unfold ShortestFormat.digitsText
  dsimp only
  rw [hds]
  split
  · split
    · exact ⟨c, hc, _, by simp; rfl⟩
    · split
      · exact ⟨'0', by decide, _, by simp; rfl⟩
      · next hlead =>
        obtain ⟨n, hn⟩ : ∃ n, (k + ↑(c :: cs).length - 1 + 1).toNat = n + 1 :=
          ⟨(k + ↑(c :: cs).length - 1).toNat, by omega⟩
        rw [hn]
        exact ⟨c, hc, _, by simp; rfl⟩
  · exact ⟨c, hc, _, by simp; rfl⟩

theorem looksOther_of_sign {p : Prop} [Decidable p] {t : String}
    (ht : ∃ c ∈ otherHeads, ∃ cs, t.toList = c :: cs) : LooksOther ((if p then "-" else "") ++ t) := by
  split
  · exact .inr ⟨'-', by decide, _, by simp; rfl⟩
  · rw [String.empty_append]
    exact .inr ht

theorem looksOther_floatText (x : Binary64) : LooksOther x.text := by
  unfold Binary64.text ShortestFormat.text
  split
  · exact .inr ⟨'n', by decide, _, rfl⟩
  · next negative _ =>
    cases negative with
    | true => exact .inr ⟨'-', by decide, _, by rfl⟩
    | false => exact .inl rfl
  · refine looksOther_of_sign ?_
    split
    · exact ⟨'0', by decide, _, by rfl⟩
    · exact exists_cons_digitsText _ _ _

theorem looksOther_integerText {n : Int} {t : String} (ht : integerText? n = some t) :
    LooksOther t := by
  unfold integerText? at ht
  dsimp only at ht
  split at ht
  · cases ht
  · obtain ⟨c, hc, cs, hds⟩ := exists_cons_toDigits n.natAbs
    have hdigits : ∃ c ∈ otherHeads, ∃ cs, (toString n.natAbs).toList = c :: cs :=
      ⟨c, hc, cs, (toList_toString n.natAbs).trans hds⟩
    rw [← Option.some.inj ht]
    exact looksOther_of_sign hdigits

namespace Heap

variable {σ : Schema} {h : Heap} {a : Address} {v : Value} {t : String}

theorem looksOther_text_list {items : List Value} (hn : h.get? a = some (.list items))
    (ht : h.text σ (.ref a) = .ok t) : LooksOther t := by
  obtain ⟨k, hk⟩ := fuel_eq_add_two σ h (.ref a)
  rw [text, hk, textWith, hn] at ht
  dsimp only at ht
  rw [quotedWith, hn] at ht
  dsimp only at ht
  rw [if_neg (by simp)] at ht
  obtain ⟨texts, -, ht⟩ := bind_eq_ok.1 ht
  cases ht
  exact .inr ⟨'[', by decide, _, by simp; rfl⟩

theorem looksOther_text_dict {es : Entries} (hn : h.get? a = some (.dict .plain es))
    (ht : h.text σ (.ref a) = .ok t) : LooksOther t := by
  obtain ⟨k, hk⟩ := fuel_eq_add_two σ h (.ref a)
  rw [text, hk, textWith, hn] at ht
  dsimp only at ht
  rw [quotedWith, hn] at ht
  dsimp only at ht
  rw [if_neg (by simp)] at ht
  obtain ⟨keys, -, ht⟩ := bind_eq_ok.1 ht
  obtain ⟨values, -, ht⟩ := bind_eq_ok.1 ht
  cases ht
  exact .inr ⟨'\x7b', by decide, _, by simp [pairsText]; rfl⟩

/-- The text of a document that is neither null nor a text looks like none of the words. -/
theorem IsDocument.looksOther_text (hv : h.IsDocument v) (hnull : v.isNull = false)
    (htext : ∀ s, v ≠ .scalar (.text s)) (ht : h.text σ v = .ok t) : LooksOther t := by
  obtain ⟨d, hd, -⟩ := hv
  cases hd with
  | list hn => exact looksOther_text_list hn ht
  | dict hn => exact looksOther_text_dict hn ht
  | leaf b =>
    rw [text_scalar] at ht
    cases b with
    | null => cases hnull
    | text s => exact absurd rfl (htext s)
    | bool b =>
      cases ht
      cases b with
      | true => exact .inr ⟨'T', by decide, _, rfl⟩
      | false => exact .inr ⟨'F', by decide, _, rfl⟩
    | float x =>
      cases ht
      exact looksOther_floatText x
    | int n =>
      refine looksOther_integerText (n := n) ?_
      cases hn : integerText? n with
      | none => simp [Tree.Atom.scalar, scalarText, Scalar.text?, hn] at ht
      | some u => simpa [Tree.Atom.scalar, scalarText, Scalar.text?, hn] using ht

end Heap

end Dotpath

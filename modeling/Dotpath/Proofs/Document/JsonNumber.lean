import Dotpath.Document.Json.Printer
import Dotpath.Document.Yaml.Meaning
import Dotpath.Proofs.Number.Digits
import Mathlib.Data.List.Basic

/-!
# Numbers of JSON in YAML

What YAML 1.1 takes the text of a number for.  An integer is read as itself
(`scalar?_integerText?`).  A floating-point number is read as a number only where its text has a
point (`Yaml.Tag.ofPlain_of_isFloatBody`, `floatValue_of_isFloatBody`); without one it is a text.
-/

namespace Dotpath

/-! ## The text of a floating-point number -/

/-- The digits behind the point of a number, if it has one. -/
def fractionChars : Option (List Char) → List Char
  | none => []
  | some ds => '.' :: ds

/-- The exponent of a number, if it has one. -/
def powerChars : Option (Char × List Char) → List Char
  | none => []
  | some (sign, ds) => 'e' :: sign :: ds

/-- Whether characters are the text of an unsigned floating-point number: digits with a fraction, an
exponent, or both. -/
structure IsFloatBody (cs : List Char) (whole : List Char) (part : Option (List Char))
    (power : Option (Char × List Char)) : Prop where
  chars : cs = whole ++ fractionChars part ++ powerChars power
  whole_row : IsDigitRow whole
  whole_ne : whole ≠ []
  part_row : ∀ ds ∈ part, IsDigitRow ds
  power_row : ∀ p ∈ power, (p.1 = '-' ∨ p.1 = '+') ∧ IsDigitRow p.2 ∧ p.2 ≠ []
  /-- Without a fraction there is an exponent behind a single digit. -/
  single : part = none → power ≠ none ∧ ∃ d, whole = [d]

theorem isDigitRow_toDigits (n : Nat) : IsDigitRow (Nat.toDigits 10 n) :=
  toList_toString n ▸ isDigitRow_toString n

theorem IsDigitRow.append {cs ds : List Char} (hcs : IsDigitRow cs) (hds : IsDigitRow ds) :
    IsDigitRow (cs ++ ds) := List.forall_mem_append.2 ⟨hcs, hds⟩

theorem isDigitRow_zeros (n : Nat) : IsDigitRow (List.replicate n '0') := fun _ hc =>
  List.eq_of_mem_replicate hc ▸ rfl

theorem exists_toList_exponentText (x : Int) : ∃ sign ds,
    (exponentText x).toList = 'e' :: sign :: ds ∧ (sign = '-' ∨ sign = '+') ∧ IsDigitRow ds ∧
      ds ≠ [] := by
  have hrow := isDigitRow_toString x.natAbs
  have hne : (toString x.natAbs).toList ≠ [] := by
    rw [toList_toString]
    exact List.ne_nil_of_length_pos Nat.length_toDigits_pos
  refine ⟨if x < 0 then '-' else '+',
    (if (toString x.natAbs).length < 2 then ['0'] else []) ++ (toString x.natAbs).toList, ?_, ?_, ?_,
    List.append_ne_nil_of_right_ne_nil _ hne⟩
  · rw [exponentText]
    split <;> split <;> simp
  · split
    · exact .inl rfl
    · exact .inr rfl
  · refine IsDigitRow.append ?_ hrow
    split
    · exact isDigitRow_zeros 1
    · exact isDigitRow_zeros 0

/-- The text of a positive number's digits. -/
theorem exists_isFloatBody_digitsText (d : Nat) (k : Int) :
    ∃ whole part power,
      IsFloatBody (ShortestFormat.plain.digitsText d k).toList whole part power := by
  have hrow := isDigitRow_toDigits d
  have hlength : 0 < (Nat.toDigits 10 d).length := Nat.length_toDigits_pos
  unfold ShortestFormat.digitsText
  dsimp only
  generalize Nat.toDigits 10 d = ds at hrow hlength
  have hne : ds ≠ [] := List.ne_nil_of_length_pos hlength
  split
  · split
    · refine ⟨ds ++ List.replicate k.toNat '0', some ['0'], none, ?_,
        hrow.append (isDigitRow_zeros _), List.append_ne_nil_of_left_ne_nil hne _, ?_, nofun, nofun⟩
      · simp [ShortestFormat.plain, fractionChars, powerChars]
      · rintro _ ⟨⟩
        exact isDigitRow_zeros 1
    · split
      · refine ⟨['0'], some (List.replicate (-(k + ds.length - 1) - 1).toNat '0' ++ ds), none, ?_,
          isDigitRow_zeros 1, List.cons_ne_nil _ _, ?_, nofun, nofun⟩
        · simp [fractionChars, powerChars]
        · rintro _ ⟨⟩
          exact (isDigitRow_zeros _).append hrow
      · refine ⟨ds.take (k + ds.length - 1 + 1).toNat,
          some (ds.drop (k + ds.length - 1 + 1).toNat), none, ?_,
          fun c hc => hrow c (List.mem_of_mem_take hc), ?_, ?_, nofun, nofun⟩
        · simp [fractionChars, powerChars]
        · rw [Ne, List.take_eq_nil_iff, not_or]
          exact ⟨by omega, hne⟩
        · rintro _ ⟨⟩
          exact fun c hc => hrow c (List.mem_of_mem_drop hc)
  · obtain ⟨sign, es, hes, hsign, hrow', hne'⟩ := exists_toList_exponentText (k + ds.length - 1)
    refine ⟨ds.take 1, if (ds.drop 1).isEmpty then none else some (ds.drop 1), some (sign, es), ?_,
      fun c hc => hrow c (List.mem_of_mem_take hc), ?_, ?_, ?_, fun _ => ⟨nofun, ?_⟩⟩
    · rw [String.toList_append, String.toList_append, String.toList_ofList, hes]
      split <;> simp [ShortestFormat.plain, fractionChars, powerChars]
    · rw [Ne, List.take_eq_nil_iff, not_or]
      exact ⟨Nat.one_ne_zero, hne⟩
    · split
      · nofun
      · rintro _ ⟨⟩
        exact fun c hc => hrow c (List.mem_of_mem_drop hc)
    · rintro _ ⟨⟩
      exact ⟨hsign, hrow', hne'⟩
    · obtain ⟨d, ds, rfl⟩ := List.exists_cons_of_ne_nil hne
      exact ⟨d, rfl⟩

/-- The text of a finite number. -/
theorem exists_isFloatBody {x : Binary64} {negative : Bool} {m : Nat} {e : Int}
    (hx : x.magnitude = .finite negative m e) : ∃ cs whole part power,
      x.text.toList = (if negative then ['-'] else []) ++ cs ∧ IsFloatBody cs whole part power := by
  rw [Binary64.text, ShortestFormat.text, hx]
  dsimp only
  by_cases hm : m = 0
  · refine ⟨['0', '.', '0'], ['0'], some ['0'], none, ?_, rfl, isDigitRow_zeros 1,
      List.cons_ne_nil _ _, ?_, nofun, nofun⟩
    · rw [if_pos hm]
      cases negative <;> simp [ShortestFormat.plain]
    · rintro _ ⟨⟩
      exact isDigitRow_zeros 1
  · rw [if_neg hm]
    generalize shortestDigits .double m e = p
    obtain ⟨d, k⟩ := p
    dsimp only
    generalize trimZeros d k 20 = p
    obtain ⟨d, k⟩ := p
    obtain ⟨whole, part, power, hbody⟩ := exists_isFloatBody_digitsText d k
    refine ⟨_, whole, part, power, ?_, hbody⟩
    cases negative <;> simp [ShortestFormat.plain]

/-! ## Its characters -/

/-- What holds of the ten digits holds of every digit. -/
theorem forall_of_isDigit {P : Char → Prop} (hall : ∀ n : Fin 10, P (Char.ofNat (48 + n)))
    {c : Char} (hc : Text.isDigit c = true) : P c := by
  have hrange := toNat_of_isDigit hc
  have h := hall ⟨c.toNat - 48, by omega⟩
  rwa [Nat.add_sub_cancel' hrange.1, Char.ofNat_toNat] at h

/-- A character of a number. -/
def isNumberChar (c : Char) : Bool :=
  Text.isDigit c || c == '.' || c == 'e' || c == '+' || c == '-'

theorem isNumberChar_of_isDigit {c : Char} (hc : Text.isDigit c = true) : isNumberChar c = true := by
  rw [isNumberChar, hc]
  rfl

theorem IsFloatBody.isNumberChar {cs whole : List Char} {part : Option (List Char)}
    {power : Option (Char × List Char)} (h : IsFloatBody cs whole part power) :
    ∀ c ∈ cs, isNumberChar c = true := by
  have hrow {ds : List Char} (hds : IsDigitRow ds) : ∀ c ∈ ds, Dotpath.isNumberChar c = true :=
    fun c hc => isNumberChar_of_isDigit (hds c hc)
  rw [h.chars, List.forall_mem_append, List.forall_mem_append]
  refine ⟨⟨hrow h.whole_row, ?_⟩, ?_⟩
  · cases hpart : part with
    | none => nofun
    | some ds => exact List.forall_mem_cons.2 ⟨rfl, hrow (h.part_row ds hpart)⟩
  · cases hpower : power with
    | none => nofun
    | some p =>
      obtain ⟨hsign, hds, -⟩ := h.power_row p hpower
      refine List.forall_mem_cons.2 ⟨rfl, List.forall_mem_cons.2 ⟨?_, hrow hds⟩⟩
      rcases hsign with hsign | hsign <;> rw [hsign] <;> rfl

/-- The first character of a number without a sign. -/
theorem IsFloatBody.exists_digit {cs whole : List Char} {part : Option (List Char)}
    {power : Option (Char × List Char)} (h : IsFloatBody cs whole part power) :
    ∃ d ds, cs = d :: ds ∧ Text.isDigit d = true := by
  obtain ⟨d, ds, hwhole⟩ := List.exists_cons_of_ne_nil h.whole_ne
  refine ⟨d, ds ++ fractionChars part ++ powerChars power, ?_, h.whole_row d ?_⟩
  · rw [h.chars, hwhole]
    rfl
  · rw [hwhole]
    exact List.mem_cons_self

/-! ## Tags -/

namespace Yaml.Tag

variable {c : Char} {cs : List Char} {text : String}

/-- No word that YAML knows begins like a number. -/
theorem isCased_eq_false {word : String} (hword : word ∈ "null" :: boolWords.map Prod.fst)
    (hc : c.isAlpha = false) : isCased word (c :: cs) = false := by
  have hall : ("null" :: boolWords.map Prod.fst).all (fun w => [w.toList, w.toList.map Char.toUpper,
      (w.toList.map Char.toUpper).take 1 ++ w.toList.drop 1].all fun form =>
        form.head?.all Char.isAlpha) = true := by decide
  have hne {form : List Char} (hform : form ∈ [word.toList, word.toList.map Char.toUpper,
      (word.toList.map Char.toUpper).take 1 ++ word.toList.drop 1]) : (c :: cs == form) = false := by
    refine beq_false_of_ne ?_
    rintro rfl
    have halpha : c.isAlpha = true :=
      List.all_eq_true.1 (List.all_eq_true.1 hall word hword) _ hform
    rw [halpha] at hc
    cases hc
  rw [isCased, hne List.mem_cons_self, hne (List.mem_cons_of_mem _ List.mem_cons_self),
    hne (List.mem_cons_of_mem _ (List.mem_cons_of_mem _ List.mem_cons_self))]
  rfl

/-- What looks like a number is a number, a time or a text. -/
theorem ofPlain_of_isNumberChar (htext : text.toList = c :: cs) (hc : c.isAlpha = false)
    (hall : ∀ d ∈ c :: cs, isNumberChar d = true) :
    ofPlain text =
      if isFloat (c :: cs) then float
      else if isInt (c :: cs) then int
      else if isTimestamp (c :: cs) then timestamp
      else str := by
  have hne (ds : List Char) (hds : ∃ d ∈ ds, isNumberChar d = false) : (c :: cs == ds) = false := by
    obtain ⟨d, hd, hnot⟩ := hds
    refine beq_false_of_ne ?_
    rintro heq
    rw [hall d (heq ▸ hd)] at hnot
    cases hnot
  have hlast : ((c :: cs).getLast? == some '\n') = false := by
    refine beq_false_of_ne fun h => ?_
    have := hall '\n' (List.mem_of_getLast? h)
    cases this
  have hempty : text.isEmpty = false := by
    rw [← Bool.not_eq_true, String.isEmpty_iff]
    rintro rfl
    cases htext
  have hwords : (boolWords.any fun e => isCased e.1 (c :: cs)) = false :=
    List.any_eq_false.2 fun e he => Bool.not_eq_true _ ▸
      isCased_eq_false (List.mem_cons_of_mem _ (List.mem_map_of_mem he)) hc
  rw [ofPlain]
  dsimp only
  rw [htext, hlast, if_neg Bool.false_ne_true, hempty, if_neg Bool.false_ne_true, hwords,
    if_neg Bool.false_ne_true, hne ['<', '<'] ⟨'<', by decide⟩, hne ['~'] ⟨'~', by decide⟩,
    isCased_eq_false List.mem_cons_self hc, hne ['='] ⟨'=', by decide⟩, hne ['!'] ⟨'!', by decide⟩,
    hne ['&'] ⟨'&', by decide⟩, hne ['*'] ⟨'*', by decide⟩]
  simp only [Bool.false_eq_true, Bool.or_false, if_false]

theorem unsigned_of_isDigit (hc : Text.isDigit c = true) : unsigned (c :: cs) = c :: cs := by
  unfold unsigned
  split
  · next h =>
    cases h
    cases hc
  · next h =>
    cases h
    cases hc
  · rfl

theorem unsigned_signed {negative : Bool} (hc : Text.isDigit c = true) :
    unsigned ((if negative then ['-'] else []) ++ c :: cs) = c :: cs := by
  cases negative with
  | true => rfl
  | false => exact unsigned_of_isDigit hc

/-- The rest after a row of digits. -/
theorem after_append {ds : List Char} (hds : IsDigitRow ds)
    (hcs : ∀ d ∈ cs.head?, isDigitOrGap d = false) : after isDigitOrGap (ds ++ cs) = cs := by
  have hgap : ∀ d ∈ ds, isDigitOrGap d = true := fun d hd => by rw [isDigitOrGap, hds d hd]; rfl
  rw [after, List.dropWhile_append_of_pos hgap]
  cases cs with
  | nil => rfl
  | cons c cs => exact List.dropWhile_cons_of_neg (by rw [hcs c rfl]; exact Bool.false_ne_true)

theorem isExponent_powerChars {power : Option (Char × List Char)}
    (hpower : ∀ p ∈ power, (p.1 = '-' ∨ p.1 = '+') ∧ IsDigitRow p.2 ∧ p.2 ≠ []) :
    isExponent (powerChars power) = true := by
  cases power with
  | none => rfl
  | some p =>
    obtain ⟨hsign, hrow, hne⟩ := hpower p rfl
    have hall : allOf Text.isDigit p.2 = true := by
      rw [allOf, isDigitRow_iff.1 hrow, List.isEmpty_eq_false_iff.2 hne]
      rfl
    rw [powerChars, isExponent, hall]
    rcases hsign with hsign | hsign <;> rw [hsign] <;> rfl

theorem head?_powerChars (power : Option (Char × List Char)) :
    ∀ d ∈ (powerChars power).head?, isDigitOrGap d = false := by
  cases power with
  | none => nofun
  | some p =>
    rintro _ ⟨⟩
    rfl

section

variable {negative : Bool} {body whole : List Char} {part : Option (List Char)}
  {power : Option (Char × List Char)}

/-- A number with a point is a floating-point number. -/
theorem isFloat_of_part {ds : List Char} (h : IsFloatBody body whole (some ds) power) :
    isFloat ((if negative then ['-'] else []) ++ body) = true := by
  obtain ⟨d, row, hwhole⟩ := List.exists_cons_of_ne_nil h.whole_ne
  have hrow := h.whole_row
  rw [hwhole] at hrow
  have hbody : body = d :: (row ++ '.' :: (ds ++ powerChars power)) := by
    rw [h.chars, hwhole, fractionChars]
    simp only [List.cons_append, List.append_assoc]
  have hd := hrow d List.mem_cons_self
  have hafter : after isDigitOrGap (row ++ '.' :: (ds ++ powerChars power)) =
      '.' :: (ds ++ powerChars power) := after_append hrow.tail (by rintro _ ⟨⟩; rfl)
  have hexponent : isExponent (after isDigitOrGap (ds ++ powerChars power)) = true := by
    rw [after_append (h.part_row ds rfl) (head?_powerChars power)]
    exact isExponent_powerChars h.power_row
  rw [hbody]
  unfold isFloat
  rw [unsigned_signed hd]
  dsimp only
  rw [hafter]
  simp only [hexponent, hd, Bool.and_self, Bool.true_or]

theorem after_e (cs : List Char) : after isDigitOrGap ('e' :: cs) = 'e' :: cs := rfl

theorem sixties_e (n : Nat) (cs : List Char) : sixties n ('e' :: cs) = (n, 'e' :: cs) := by
  unfold sixties
  split
  · next h => cases h
  · next h => cases h
  · rfl

/-- A digit before an exponent is no floating-point number. -/
theorem isFloat_exponent (hc : Text.isDigit c = true) :
    isFloat ((if negative then ['-'] else []) ++ c :: 'e' :: cs) = false := by
  have hdot : c ≠ '.' := by
    rintro rfl
    cases hc
  unfold isFloat
  rw [unsigned_signed hc]
  cases negative <;> simp [after_e, sixties_e, hdot]

theorem isInt_exponent (hc : Text.isDigit c = true) :
    isInt ((if negative then ['-'] else []) ++ c :: 'e' :: cs) = false := by
  rw [isInt, unsigned_signed hc]
  by_cases hzero : c = '0'
  · subst hzero
    rfl
  · simp [hzero, after_e, sixties_e]

theorem isTimestamp_exponent :
    isTimestamp ((if negative then ['-'] else []) ++ c :: 'e' :: cs) = false := by
  have htime : timeText? ((if negative then ['-'] else []) ++ c :: 'e' :: cs) = none := by
    have hyear : ∃ d ∈ ((if negative then ['-'] else []) ++ c :: 'e' :: cs).take 4,
        Text.isDigit d = false := by
      cases negative <;> exact ⟨'e', by simp, rfl⟩
    obtain ⟨d, hd, hnot⟩ := hyear
    have hall : (((if negative then ['-'] else []) ++ c :: 'e' :: cs).take 4).all Text.isDigit =
        false := List.all_eq_false.2 ⟨d, hd, by rw [hnot]; exact Bool.false_ne_true⟩
    rw [timeText?, hall, if_pos (by rw [Bool.not_false, Bool.or_true])]
  rw [isTimestamp, htime]

theorem isAlpha_of_isDigit (hc : Text.isDigit c = true) : c.isAlpha = false :=
  forall_of_isDigit (P := (·.isAlpha = false)) (by decide) hc

theorem ofPlain_signed (hc : Text.isDigit c = true) (hcs : ∀ d ∈ c :: cs, isNumberChar d = true)
    (htext : text.toList = (if negative then ['-'] else []) ++ c :: cs) :
    ofPlain text =
      if isFloat text.toList then float
      else if isInt text.toList then int
      else if isTimestamp text.toList then timestamp
      else str := by
  rw [htext]
  cases negative with
  | true => exact ofPlain_of_isNumberChar htext rfl (List.forall_mem_cons.2 ⟨rfl, hcs⟩)
  | false => exact ofPlain_of_isNumberChar htext (isAlpha_of_isDigit hc) hcs

/-- What a number with a sign perhaps is to YAML. -/
theorem ofPlain_of_isFloatBody {text : String} (h : IsFloatBody body whole part power)
    (htext : text.toList = (if negative then ['-'] else []) ++ body) :
    ofPlain text = if part.isSome then float else str := by
  obtain ⟨d, ds, rfl, hd⟩ := h.exists_digit
  rw [ofPlain_signed hd h.isNumberChar htext, htext]
  cases part with
  | some es =>
    rw [isFloat_of_part h]
    rfl
  | none =>
    obtain ⟨hpower, e, hwhole⟩ := h.single rfl
    obtain ⟨p, rfl⟩ := Option.ne_none_iff_exists'.1 hpower
    have hbody : d :: ds = e :: 'e' :: p.1 :: p.2 := by
      rw [h.chars, hwhole]
      rfl
    cases hbody
    rw [isFloat_exponent hd, isInt_exponent hd, isTimestamp_exponent]
    rfl

end

end Yaml.Tag

/-! ## Values -/

section

variable {c : Char} {cs ds : List Char}

theorem toNat_of_isNumberChar (hc : isNumberChar c = true) : 33 ≤ c.toNat ∧ c.toNat < 128 := by
  simp only [isNumberChar, Bool.or_eq_true, beq_iff_eq] at hc
  rcases hc with (((hc | rfl) | rfl) | rfl) | rfl
  · have := toNat_of_isDigit hc
    omega
  all_goals decide

theorem splitDigitRow_append (hds : IsDigitRow ds)
    (hcs : ∀ c ∈ cs.head?, Yaml.Tag.isDigitOrGap c = false) :
    splitDigitRow (ds ++ cs) = (ds, cs, true) := by
  induction ds with
  | nil =>
    cases cs with
    | nil => rw [List.append_nil, splitDigitRow]
    | cons c cs =>
      have hc := hcs c rfl
      rw [Yaml.Tag.isDigitOrGap, Bool.or_eq_false_iff] at hc
      rw [List.nil_append]
      unfold splitDigitRow
      split <;> simp_all
  | cons d ds ih =>
    have hunder : ∀ rest, ds ++ cs ≠ '_' :: rest := by
      intro rest h
      cases ds with
      | nil =>
        rw [List.nil_append] at h
        have := hcs '_' (by rw [h]; rfl)
        cases this
      | cons e es =>
        cases h
        have := hds '_' (List.mem_cons_of_mem _ List.mem_cons_self)
        cases this
    rw [List.cons_append, splitDigitRow, if_pos (hds d List.mem_cons_self), ih hds.tail]
    · exact fun e rest h => hunder _ h
    · exact hunder _

theorem isSome_readExponent?_powerChars {power : Option (Char × List Char)}
    (hpower : ∀ p ∈ power, (p.1 = '-' ∨ p.1 = '+') ∧ IsDigitRow p.2 ∧ p.2 ≠ []) :
    (readExponent? (powerChars power)).isSome = true := by
  cases power with
  | none => rfl
  | some p =>
    obtain ⟨hsign, hrow, hne⟩ := hpower p rfl
    obtain ⟨negative, hsplit⟩ : ∃ negative, splitSign (p.1 :: p.2) = (negative, p.2) := by
      rcases hsign with h | h <;> rw [h] <;> exact ⟨_, rfl⟩
    have hempty : p.2.isEmpty = false := List.isEmpty_eq_false_iff.2 hne
    rw [powerChars, readExponent?, if_pos (.inl rfl), hsplit]
    dsimp only
    rw [splitDigitRow_of_isDigitRow hrow]
    dsimp only
    rw [hempty]
    rfl

variable {body whole : List Char} {part : Option (List Char)} {power : Option (Char × List Char)}

/-- The text of an unsigned number can be read. -/
theorem isSome_readUnsigned? (h : IsFloatBody body whole part power) (negative : Bool) :
    (readUnsigned? negative body).isSome = true := by
  have hhead : ∀ c ∈ (fractionChars part ++ powerChars power).head?,
      Yaml.Tag.isDigitOrGap c = false := by
    cases part with
    | none => exact Yaml.Tag.head?_powerChars power
    | some ds =>
      rintro _ ⟨⟩
      rfl
  unfold readUnsigned?
  dsimp only
  split
  · rfl
  split
  · rfl
  have hwhole : whole.isEmpty = false := List.isEmpty_eq_false_iff.2 h.whole_ne
  have hexponent := isSome_readExponent?_powerChars h.power_row
  rw [h.chars, List.append_assoc, splitDigitRow_append h.whole_row hhead]
  cases hpart : part with
  | some ds =>
    have hsplit := splitDigitRow_append (h.part_row ds hpart) (Yaml.Tag.head?_powerChars power)
    simp [fractionChars, hsplit, hwhole, hexponent]
  | none =>
    obtain ⟨p, rfl⟩ := Option.ne_none_iff_exists'.1 (h.single hpart).1
    simp only [powerChars] at hexponent
    simp [fractionChars, powerChars, hwhole, hexponent]

theorem asciiDigits_stripAscii_of_isNumberChar (hcs : ∀ c ∈ cs, isNumberChar c = true) :
    stripAscii (asciiDigits cs) = cs := by
  rw [asciiDigits_of_lt fun c hc => (toNat_of_isNumberChar (hcs c hc)).2,
    stripAscii_of_le fun c hc => (toNat_of_isNumberChar (hcs c hc)).1]

theorem splitSign_of_isDigit (hc : Text.isDigit c = true) :
    splitSign (c :: cs) = (false, c :: cs) := by
  unfold splitSign
  split
  · next h =>
    cases h
    cases hc
  · next h =>
    cases h
    cases hc
  · rfl

/-- The sign and the digits of a number. -/
theorem signed_of_isDigit {negative : Bool} (hc : Text.isDigit c = true) :
    Yaml.signed ((if negative then ['-'] else []) ++ c :: cs) = .ok (negative, c :: cs) := by
  cases negative with
  | true => rfl
  | false => exact congrArg Except.ok (splitSign_of_isDigit hc)

theorem lower_of_isNumberChar (hcs : ∀ c ∈ cs, isNumberChar c = true) : Text.lower cs = cs := by
  have hchar (c : Char) (hc : isNumberChar c = true) : Text.lowerChar c = [c] := by
    have hlt := (toNat_of_isNumberChar hc).2
    simp only [isNumberChar, Bool.or_eq_true, beq_iff_eq] at hc
    rw [Text.lowerChar, if_pos hlt]
    rcases hc with (((hc | rfl) | rfl) | rfl) | rfl
    · exact forall_of_isDigit (P := fun d => [d.toLower] = [d]) (by decide) hc
    all_goals rfl
  rw [Text.lower, List.flatMap_congr fun c hc => hchar c (hcs c hc), List.flatMap_singleton']

theorem filter_of_isNumberChar (hcs : ∀ c ∈ cs, isNumberChar c = true) :
    cs.filter (· != '_') = cs := by
  refine List.filter_eq_self.2 fun c hc => bne_iff_ne.2 ?_
  rintro rfl
  cases hcs '_' hc

theorem contains_colon_eq_false (hcs : ∀ c ∈ cs, isNumberChar c = true) :
    cs.contains ':' = false := by
  rw [List.contains_eq_mem, decide_eq_false_iff_not]
  intro hmem
  cases hcs ':' hmem

theorem isNumberChar_signed (negative : Bool) (hcs : ∀ c ∈ cs, isNumberChar c = true) :
    ∀ c ∈ (if negative then ['-'] else []) ++ cs, isNumberChar c = true := by
  refine List.forall_mem_append.2 ⟨?_, hcs⟩
  cases negative with
  | true => exact List.forall_mem_singleton.2 rfl
  | false => nofun

/-- The text of a number has a value as a floating-point number. -/
theorem floatValue_of_isFloatBody {text : String} {negative : Bool}
    (h : IsFloatBody body whole part power)
    (htext : text.toList = (if negative then ['-'] else []) ++ body) :
    ∃ x, Yaml.floatValue text = .ok x := by
  obtain ⟨d, ds, hbody, hd⟩ := h.exists_digit
  have hall := isNumberChar_signed negative h.isNumberChar
  obtain ⟨x, hx⟩ := Option.isSome_iff_exists.1 (isSome_readUnsigned? h false)
  have hread : Yaml.decimalFloat body = .ok x := by
    rw [Yaml.decimalFloat, Binary64.read?, asciiDigits_stripAscii_of_isNumberChar h.isNumberChar,
      hbody, splitSign_of_isDigit hd, ← hbody]
    dsimp only
    rw [hx]
  have hsigned : Yaml.signed (Text.lower (text.toList.filter (· != '_'))) = .ok (negative, body) := by
    rw [htext, filter_of_isNumberChar hall, lower_of_isNumberChar hall, hbody, signed_of_isDigit hd]
  have hword (w : List Char) : (body == '.' :: w) = false := by
    rw [hbody]
    refine beq_false_of_ne fun heq => ?_
    cases heq
    cases hd
  have hcolon := contains_colon_eq_false h.isNumberChar
  have hinf : (body == ".inf".toList) = false := hword _
  have hnan : (body == ".nan".toList) = false := hword _
  refine ⟨if negative && !x.isNaN then x.neg else x, ?_⟩
  rw [Yaml.floatValue, hsigned]
  change (if body == ".inf".toList then _ else if body == ".nan".toList then _ else
    if body.contains ':' then _ else Yaml.decimalFloat body >>= _ : Except Fault Binary64) = _
  rw [hinf, if_neg Bool.false_ne_true, hnan, if_neg Bool.false_ne_true, hcolon,
    if_neg Bool.false_ne_true, hread]
  rfl

/-! ## Integers -/

/-- A written number is zero or begins with another digit. -/
theorem toDigits_cases (n : Nat) :
    Nat.toDigits 10 n = ['0'] ∨ ∃ d ds, Nat.toDigits 10 n = d :: ds ∧ d ≠ '0' := by
  induction n using Nat.strongRecOn with
  | ind n ih =>
    by_cases hn : n < 10
    · rw [Nat.toDigits_of_lt_base hn]
      by_cases hzero : n.digitChar = '0'
      · exact .inl (congrArg (fun d => [d]) hzero)
      · exact .inr ⟨_, _, rfl, hzero⟩
    · have hpos : Nat.toDigits 10 (n / 10) ≠ ['0'] := by
        intro h
        have hvalue := Nat.ofDigitChars_ten_toDigits (n := n / 10)
        rw [h] at hvalue
        have : n / 10 = 0 := hvalue.symm.trans rfl
        omega
      obtain ⟨d, ds, hds, hd⟩ := (ih (n / 10) (by omega)).resolve_left hpos
      rw [Nat.toDigits_of_base_le (by decide) (Nat.not_lt.1 hn), hds]
      exact .inr ⟨d, ds ++ [(n % 10).digitChar], rfl, hd⟩

/-- The text of an integer that is not too long. -/
theorem toList_integerText? {n : Int} {text : String} (htext : integerText? n = some text) :
    text.toList = (if n < 0 then ['-'] else []) ++ Nat.toDigits 10 n.natAbs ∧
      (Nat.toDigits 10 n.natAbs).length ≤ maxDigits := by
  unfold integerText? at htext
  dsimp only at htext
  split at htext
  · cases htext
  · next hlong =>
    cases htext
    rw [String.toList_append, toList_toString]
    rw [Nat.not_lt, ← String.length_toList, toList_toString] at hlong
    refine ⟨?_, hlong⟩
    split <;> rfl

variable {negative : Bool}

theorem after_digits (hds : IsDigitRow ds) : Yaml.Tag.after Yaml.Tag.isDigitOrGap ds = [] := by
  have h : Yaml.Tag.after Yaml.Tag.isDigitOrGap (ds ++ []) = [] :=
    Yaml.Tag.after_append hds nofun
  rwa [List.append_nil] at h

theorem sixties_nil (n : Nat) : Yaml.Tag.sixties n [] = (n, []) := by
  unfold Yaml.Tag.sixties
  rfl

theorem isFloat_digits (hds : IsDigitRow (c :: ds)) :
    Yaml.Tag.isFloat ((if negative then ['-'] else []) ++ c :: ds) = false := by
  have hc := hds c List.mem_cons_self
  have hdot : c ≠ '.' := by
    rintro rfl
    cases hc
  unfold Yaml.Tag.isFloat
  rw [Yaml.Tag.unsigned_signed hc]
  cases negative <;> simp [after_digits hds.tail, sixties_nil, hdot]

theorem isInt_digits (hds : IsDigitRow (c :: ds)) (hzero : c :: ds = ['0'] ∨ c ≠ '0') :
    Yaml.Tag.isInt ((if negative then ['-'] else []) ++ c :: ds) = true := by
  have hc := hds c List.mem_cons_self
  rw [Yaml.Tag.isInt, Yaml.Tag.unsigned_signed hc]
  rcases hzero with h | h
  · rw [h]
    rfl
  · simp [h, hc, after_digits hds.tail, sixties_nil]

theorem ofPlain_digits {text : String} (hds : IsDigitRow (c :: ds))
    (hzero : c :: ds = ['0'] ∨ c ≠ '0')
    (htext : text.toList = (if negative then ['-'] else []) ++ c :: ds) :
    Yaml.Tag.ofPlain text = .int := by
  have hrow : ∀ d ∈ c :: ds, isNumberChar d = true := fun d hd => isNumberChar_of_isDigit (hds d hd)
  rw [Yaml.Tag.ofPlain_signed (hds c List.mem_cons_self) hrow htext, htext, isFloat_digits hds,
    isInt_digits hds hzero]
  rfl

theorem integerValue_digits {text : String} (hds : IsDigitRow (c :: ds))
    (hzero : c :: ds = ['0'] ∨ c ≠ '0') (hshort : (c :: ds).length ≤ maxDigits)
    (htext : text.toList = (if negative then ['-'] else []) ++ c :: ds) :
    Yaml.integerValue text =
      .ok (if negative then -(Text.digitsValue (c :: ds) : Int) else Text.digitsValue (c :: ds)) := by
  have hc := hds c List.mem_cons_self
  have hrow : ∀ d ∈ c :: ds, isNumberChar d = true := fun d hd => isNumberChar_of_isDigit (hds d hd)
  have hall := isNumberChar_signed negative hrow
  have hsigned : Yaml.signed (text.toList.filter (· != '_')) = .ok (negative, c :: ds) := by
    rw [htext, filter_of_isNumberChar hall, signed_of_isDigit hc]
  have hread : Yaml.decimalInteger (c :: ds) = .ok (Text.digitsValue (c :: ds) : Int) := by
    rw [Yaml.decimalInteger, readInteger, asciiDigits_stripAscii_of_isNumberChar hrow,
      splitSign_of_isDigit hc]
    dsimp only
    rw [splitDigitRow_of_isDigitRow hds]
    simp only [Bool.not_true, List.isEmpty_cons, Bool.or_self, Bool.false_eq_true, if_false,
      List.isEmpty_nil, gt_iff_lt, Nat.not_lt.2 hshort]
  rw [Yaml.integerValue, hsigned]
  rcases hzero with h | h
  · rw [h]
    cases negative <;> rfl
  · have hcolon := contains_colon_eq_false hrow
    simp only [bind, Except.bind, hcolon, hread, Bool.false_eq_true, if_false]
    split
    case h_5 heq => cases heq
    case h_6 => rfl
    -- Another base is told by a leading zero.
    all_goals
      next heq => exact absurd (List.cons.inj heq).1 h

/-- An integer's text is read as the integer. -/
theorem scalar?_integerText? {n : Int} {text : String} (htext : integerText? n = some text) :
    (Yaml.Tag.ofPlain text).scalar? text = some (.ok (.int n)) := by
  obtain ⟨htext, hshort⟩ := toList_integerText? htext
  have hrow := isDigitRow_toDigits n.natAbs
  have hvalue : Text.digitsValue (Nat.toDigits 10 n.natAbs) = n.natAbs := by
    rw [digitsValue_eq_ofDigitChars, Nat.ofDigitChars_ten_toDigits]
  obtain ⟨c, ds, hds, hzero⟩ : ∃ c ds, Nat.toDigits 10 n.natAbs = c :: ds ∧
      (c :: ds = ['0'] ∨ c ≠ '0') := by
    rcases toDigits_cases n.natAbs with h | ⟨c, ds, h, hc⟩
    · exact ⟨'0', [], h, .inl rfl⟩
    · exact ⟨c, ds, h, .inr hc⟩
  rw [hds] at htext hshort hrow hvalue
  have htext' : text.toList = (if decide (n < 0) = true then ['-'] else []) ++ c :: ds := by
    rw [htext]
    simp only [decide_eq_true_eq]
  rw [ofPlain_digits hrow hzero htext', Yaml.Tag.scalar?,
    integerValue_digits hrow hzero hshort htext', hvalue]
  change some (Except.ok (Scalar.int _)) = _
  congr 3
  by_cases hn : n < 0
  · rw [if_pos (decide_eq_true hn)]
    omega
  · rw [if_neg (by simpa using hn)]
    omega

end

end Dotpath

import Dotpath.Document.Plain
import Dotpath.Proofs.Number.Digits

/-!
# Texts of dates and bytes

Different dates, different moments and different rows of bytes have different texts, and no text
belongs to two of these kinds (`Scalar.eq_of_text`).  Each text is read back from the left: a row
of digits ends where the next character is no digit, and a quoted byte tells by its first characters
how long it is.
-/

namespace Dotpath

/-! ## Padded numbers -/

theorem isDigitRow_padded (width n : Nat) : IsDigitRow (padded width n).toList := by
  intro c hc
  rw [padded, String.toList_ofList, List.mem_append, List.mem_replicate] at hc
  rcases hc with ⟨-, rfl⟩ | hc
  · decide
  · rw [← toList_toString] at hc
    exact isDigitRow_toString n c hc

theorem digitsValue_padded (width n : Nat) : Text.digitsValue (padded width n).toList = n := by
  rw [padded, String.toList_ofList, digitsValue_eq_ofDigitChars, Nat.ofDigitChars_append,
    Nat.ofDigitChars_replicate_zero, Nat.mul_zero, Nat.ofDigitChars_ten_toDigits]

/-- A number and what follows it can be told apart, unless what follows begins with a digit. -/
theorem padded_append_inj {width m n : Nat} {r r' : List Char}
    (hr : r.takeWhile Text.isDigit = []) (hr' : r'.takeWhile Text.isDigit = [])
    (h : (padded width m).toList ++ r = (padded width n).toList ++ r') : m = n ∧ r = r' := by
  have hrow := congrArg (List.takeWhile Text.isDigit) h
  rw [List.takeWhile_append_of_pos (isDigitRow_padded width m),
    List.takeWhile_append_of_pos (isDigitRow_padded width n), hr, hr', List.append_nil,
    List.append_nil] at hrow
  have hvalue := congrArg Text.digitsValue hrow
  rw [digitsValue_padded, digitsValue_padded] at hvalue
  rw [hrow] at h
  exact ⟨hvalue, List.append_cancel_left h⟩

/-- Two numbers with the same mark after them. -/
theorem padded_mark_inj {width m n : Nat} {mark : Char} {r r' : List Char}
    (hmark : Text.isDigit mark = false)
    (h : (padded width m).toList ++ mark :: r = (padded width n).toList ++ mark :: r') :
    m = n ∧ r = r' := by
  have hends (r : List Char) : (mark :: r).takeWhile Text.isDigit = [] :=
    List.takeWhile_cons_of_neg (by rw [hmark]; exact Bool.false_ne_true)
  obtain ⟨hn, hr⟩ := padded_append_inj (hends r) (hends r') h
  exact ⟨hn, (List.cons.inj hr).2⟩

/-! ## Dates and times -/

theorem Date.toList_text (d : Date) : d.text.toList = (padded 4 d.year).toList ++ '-' ::
    ((padded 2 d.month).toList ++ '-' :: (padded 2 d.day).toList) := by
  simp [text]

theorem Date.text_append_inj {d d' : Date} {r r' : List Char} (hr : r.takeWhile Text.isDigit = [])
    (hr' : r'.takeWhile Text.isDigit = []) (h : d.text.toList ++ r = d'.text.toList ++ r') :
    d = d' ∧ r = r' := by
  simp only [toList_text, List.append_assoc, List.cons_append] at h
  obtain ⟨hyear, h⟩ := padded_mark_inj (by decide) h
  obtain ⟨hmonth, h⟩ := padded_mark_inj (by decide) h
  obtain ⟨hday, h⟩ := padded_append_inj hr hr' h
  exact ⟨by cases d; cases d'; simp_all, h⟩

namespace TimeOfDay

/-- What shows of an offset, if it is known. -/
def offsetChars : Option Int → List Char
  | none => []
  | some o => (offsetText o).toList

/-- What shows of a fraction of a second. -/
def fractionChars (micro : Nat) : List Char :=
  if micro = 0 then [] else '.' :: (padded 6 micro).toList

theorem toList_text (t : TimeOfDay) : t.text.toList = (padded 2 t.hour).toList ++ ':' ::
    ((padded 2 t.minute).toList ++ ':' :: ((padded 2 t.second).toList ++
      (fractionChars t.microsecond ++ offsetChars t.offset))) := by
  unfold text fractionChars offsetChars
  cases t.offset <;> split <;> simp

theorem toList_offsetText (o : Int) : (offsetText o).toList = (if o < 0 then '-' else '+') ::
    ((padded 2 (o.natAbs / 3600)).toList ++ ':' :: ((padded 2 (o.natAbs / 60 % 60)).toList ++
      (if o.natAbs % 60 = 0 then [] else ':' :: (padded 2 (o.natAbs % 60)).toList))) := by
  unfold offsetText
  by_cases hneg : o < 0 <;> by_cases hzero : o.natAbs % 60 = 0 <;> simp [hneg, hzero]

/-- The digits of a time end before an offset. -/
theorem takeWhile_offsetChars (o : Option Int) : (offsetChars o).takeWhile Text.isDigit = [] := by
  cases o with
  | none => rfl
  | some o =>
    rw [offsetChars, toList_offsetText]
    split <;> exact List.takeWhile_cons_of_neg (by decide)

theorem takeWhile_fractionChars (micro : Nat) {r : List Char}
    (hr : r.takeWhile Text.isDigit = []) :
    (fractionChars micro ++ r).takeWhile Text.isDigit = [] := by
  unfold fractionChars
  split
  · exact hr
  · exact List.takeWhile_cons_of_neg (by decide)

theorem offsetText_inj {o o' : Int} (h : (offsetText o).toList = (offsetText o').toList) :
    o = o' := by
  rw [toList_offsetText, toList_offsetText] at h
  obtain ⟨hsign, h⟩ := List.cons.inj h
  obtain ⟨hhours, h⟩ := padded_mark_inj (by decide) h
  have hends (k : Nat) : (if k = 0 then [] else ':' :: (padded 2 k).toList).takeWhile
      Text.isDigit = [] := by
    split
    · rfl
    · exact List.takeWhile_cons_of_neg (by decide)
  obtain ⟨hminutes, h⟩ := padded_append_inj (hends _) (hends _) h
  have hseconds : o.natAbs % 60 = o'.natAbs % 60 := by
    split at h <;> split at h
    · omega
    · cases h
    · cases h
    · exact (padded_append_inj rfl rfl
        (by rw [List.append_nil, List.append_nil]; exact (List.cons.inj h).2)).1
  have hneg : o < 0 ↔ o' < 0 := by
    by_cases ho : o < 0 <;> by_cases ho' : o' < 0 <;> simp [ho, ho'] at hsign ⊢
  omega

theorem offsetChars_inj {o o' : Option Int} (h : offsetChars o = offsetChars o') : o = o' := by
  cases o <;> cases o'
  · rfl
  · cases h.trans (toList_offsetText _)
  · cases h.symm.trans (toList_offsetText _)
  · rw [offsetText_inj h]

theorem text_inj {t t' : TimeOfDay} (h : t.text.toList = t'.text.toList) : t = t' := by
  rw [toList_text, toList_text] at h
  obtain ⟨hhour, h⟩ := padded_mark_inj (by decide) h
  obtain ⟨hminute, h⟩ := padded_mark_inj (by decide) h
  obtain ⟨hsecond, h⟩ := padded_append_inj (takeWhile_fractionChars _ (takeWhile_offsetChars _))
    (takeWhile_fractionChars _ (takeWhile_offsetChars _)) h
  -- A fraction begins with a point, and an offset does not.
  have hpoint (r : List Char) (o : Option Int) : '.' :: r ≠ offsetChars o := by
    intro h
    cases o with
    | none => cases h
    | some o =>
      have hhead := (List.cons.inj (h.trans (toList_offsetText o))).1
      split at hhead <;> exact absurd hhead (by decide)
  obtain ⟨hmicro, hoffset⟩ : t.microsecond = t'.microsecond ∧
      offsetChars t.offset = offsetChars t'.offset := by
    unfold fractionChars at h
    split at h <;> split at h
    · next hzero hzero' => exact ⟨hzero.trans hzero'.symm, h⟩
    · exact absurd h.symm (hpoint _ _)
    · exact absurd h (hpoint _ _)
    · exact padded_append_inj (takeWhile_offsetChars _) (takeWhile_offsetChars _)
        (List.cons.inj h).2
  cases t
  cases t'
  simp only at hhour hminute hsecond hmicro hoffset
  rw [hhour, hminute, hsecond, hmicro, offsetChars_inj hoffset]

end TimeOfDay

/-! ## Bytes -/

namespace Text

/-- The value of a small hexadecimal digit. -/
def hexDigit (c : Char) : Nat := if isDigit c then c.toNat - 48 else c.toNat - 87

/-- The byte after a backslash, and the rest of the row. -/
def escapedByte? : List Char → Option (UInt8 × List Char)
  | 'x' :: c :: d :: cs => some (UInt8.ofNat (hexDigit c * 16 + hexDigit d), cs)
  | 'n' :: cs => some (10, cs)
  | 'r' :: cs => some (13, cs)
  | 't' :: cs => some (9, cs)
  | '\\' :: cs => some (92, cs)
  | '\'' :: cs => some (39, cs)
  | '"' :: cs => some (34, cs)
  | _ => none

/-- The first byte of a quoted row, and the rest of the row. -/
def firstByte? : List Char → Option (UInt8 × List Char)
  | '\\' :: cs => escapedByte? cs
  | c :: cs => some (UInt8.ofNat c.toNat, cs)
  | [] => none

theorem escapedByte?_append {cs r : List Char} {b : UInt8} (h : escapedByte? cs = some (b, r))
    (rest : List Char) : escapedByte? (cs ++ rest) = some (b, r ++ rest) := by
  unfold escapedByte? at h
  split at h <;> cases h <;> rfl

theorem firstByte?_append {cs r : List Char} {b : UInt8} (h : firstByte? cs = some (b, r))
    (rest : List Char) : firstByte? (cs ++ rest) = some (b, r ++ rest) := by
  cases cs with
  | nil => cases h
  | cons c cs =>
    by_cases hc : c = '\\'
    · subst hc
      exact escapedByte?_append h rest
    · rw [firstByte?] at h
      · cases h
        rw [List.cons_append, firstByte?]
        exact hc
      · exact hc

theorem firstByte?_quotedByte {quote : Char} (hquote : quote = '\'' ∨ quote = '"') :
    ∀ b, firstByte? (quotedByte quote b) = some (b, []) := by
  suffices hall : ∀ n < 256, firstByte? (quotedByte quote (UInt8.ofNat n)) =
      some (UInt8.ofNat n, []) by
    intro b
    have hb := hall b.toNat b.toNat_lt
    rwa [UInt8.ofNat_toNat] at hb
  rcases hquote with rfl | rfl
  · decide +kernel
  · decide +kernel

theorem flatMap_quotedByte_inj {quote : Char} (hquote : quote = '\'' ∨ quote = '"')
    {bs bs' : List UInt8} (h : bs.flatMap (quotedByte quote) = bs'.flatMap (quotedByte quote)) :
    bs = bs' := by
  have hread (b : UInt8) (bs : List UInt8) :
      firstByte? ((b :: bs).flatMap (quotedByte quote)) =
        some (b, bs.flatMap (quotedByte quote)) := by
    rw [List.flatMap_cons]
    exact firstByte?_append (firstByte?_quotedByte hquote b) _
  induction bs generalizing bs' with
  | nil =>
    cases bs' with
    | nil => rfl
    | cons b' bs' => cases (congrArg firstByte? h).trans (hread b' bs')
  | cons b bs ih =>
    have hfirst := (hread b bs).symm.trans (congrArg firstByte? h)
    cases bs' with
    | nil => cases hfirst
    | cons b' bs' =>
      obtain ⟨rfl, hrest⟩ := Prod.mk.inj (Option.some.inj (hfirst.trans (hread b' bs')))
      rw [ih hrest]

theorem quoteFor_eq (cs : List Char) : quoteFor cs = '\'' ∨ quoteFor cs = '"' := by
  unfold quoteFor
  split
  · exact .inr rfl
  · exact .inl rfl

theorem quotedBytes_inj {bs bs' : List UInt8} (h : quotedBytes bs = quotedBytes bs') :
    bs = bs' := by
  simp only [quotedBytes, String.ofList_inj, List.cons.injEq, true_and] at h
  obtain ⟨hquote, h⟩ := h
  rw [hquote] at h
  exact flatMap_quotedByte_inj (quoteFor_eq _) (List.append_cancel_right h)

end Text

/-! ## Scalars of documents -/

namespace Scalar

/-- Whether a scalar can be what a text in a document means. -/
def isLoaded : Scalar → Bool
  | .null | .bool _ | .int _ | .float _ | .text _ | .bytes _ | .date _ | .dateTime .. => true
  | _ => false

variable {s s' : Scalar}

/-- The scalars of documents that are no keys of plain data. -/
theorem cases_of_isLoaded (hs : s.isLoaded = true) (hkey : s.isPlainKey = false) :
    (∃ bs, s = .bytes bs) ∨ (∃ d, s = .date d) ∨ ∃ d t, s = .dateTime d t := by
  cases s with
  | bytes bs => exact .inl ⟨bs, rfl⟩
  | date d => exact .inr (.inl ⟨d, rfl⟩)
  | dateTime d t => exact .inr (.inr ⟨d, t, rfl⟩)
  | null | bool | int | float | text => cases hkey
  | _ => cases hs

theorem quotedBytes_ne {bs : List UInt8} {d : Date} {rest : List Char} :
    (Text.quotedBytes bs).toList ≠ d.text.toList ++ rest := by
  rw [Text.quotedBytes, String.toList_ofList, Date.toList_text, List.append_assoc, List.cons_append]
  intro h
  have hrow := congrArg (List.takeWhile Text.isDigit) h
  rw [List.takeWhile_append_of_pos (isDigitRow_padded 4 d.year),
    List.takeWhile_cons_of_neg (by decide)] at hrow
  rw [(List.append_eq_nil_iff.1 hrow.symm).1] at h
  exact absurd (List.cons.inj h).1 (by decide)

theorem toList_dateTime_text (d : Date) (t : TimeOfDay) :
    (d.text ++ " " ++ t.text).toList = d.text.toList ++ ' ' :: t.text.toList := by
  simp

theorem date_ne_dateTime {d d' : Date} {t : TimeOfDay} : d.text ≠ d'.text ++ " " ++ t.text := by
  intro h
  have hlist := congrArg String.toList h
  rw [toList_dateTime_text, ← List.append_nil d.text.toList] at hlist
  cases (Date.text_append_inj rfl rfl hlist).2

theorem dateTime_text_inj {d d' : Date} {t t' : TimeOfDay}
    (h : d.text ++ " " ++ t.text = d'.text ++ " " ++ t'.text) : d = d' ∧ t = t' := by
  have hlist := congrArg String.toList h
  rw [toList_dateTime_text, toList_dateTime_text] at hlist
  obtain ⟨hd, hrest⟩ := Date.text_append_inj rfl rfl hlist
  exact ⟨hd, TimeOfDay.text_inj (List.cons.inj hrest).2⟩

/-- Two scalars of documents that are no keys of plain data have different texts. -/
theorem eq_of_text (hs : s.isLoaded = true) (hs' : s'.isLoaded = true)
    (hkey : s.isPlainKey = false) (hkey' : s'.isPlainKey = false) (h : s.text? = s'.text?) :
    s = s' := by
  have hbytes {bs : List UInt8} {d : Date} {rest : String} :
      Text.quotedBytes bs ≠ d.text ++ rest := fun h =>
    quotedBytes_ne ((congrArg String.toList h).trans String.toList_append)
  rcases cases_of_isLoaded hs hkey with ⟨bs, rfl⟩ | ⟨d, rfl⟩ | ⟨d, t, rfl⟩ <;>
    rcases cases_of_isLoaded hs' hkey' with ⟨bs', rfl⟩ | ⟨d', rfl⟩ | ⟨d', t', rfl⟩ <;>
    replace h := Option.some.inj h
  · rw [Text.quotedBytes_inj h]
  · exact absurd (h.trans String.append_empty.symm) hbytes
  · exact absurd (h.trans String.append_assoc) hbytes
  · exact absurd (h.symm.trans String.append_empty.symm) hbytes
  · have hlist := congrArg (fun s : String => s.toList ++ []) h
    rw [(Date.text_append_inj rfl rfl hlist).1]
  · exact absurd h date_ne_dateTime
  · exact absurd (h.symm.trans String.append_assoc) hbytes
  · exact absurd h.symm date_ne_dateTime
  · obtain ⟨rfl, rfl⟩ := dateTime_text_inj h
    rfl

end Scalar

end Dotpath

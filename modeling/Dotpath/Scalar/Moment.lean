import Dotpath.Number.Reading

/-!
# Dates and times

Calendar dates, times of day and durations with their texts.  `Date.dayNumber` counts days from
the first of March of the year zero, which makes the calendar one formula in both directions.
-/

namespace Dotpath

/-- A calendar date. -/
structure Date where
  year : Nat
  month : Nat
  day : Nat
  deriving DecidableEq, Repr

/-- A time of day, with the offset from universal time in seconds if it is known. -/
structure TimeOfDay where
  hour : Nat
  minute : Nat
  second : Nat
  microsecond : Nat
  offset : Option Int
  deriving DecidableEq, Repr

/-- The decimal digits of `n`, padded with zeros to `width`. -/
def padded (width n : Nat) : String :=
  let ds := Nat.toDigits 10 n
  String.ofList (List.replicate (width - ds.length) '0' ++ ds)

namespace Date

/-- The number of days in a month. -/
def daysIn (year month : Nat) : Nat :=
  if month = 2 then
    if year % 4 = 0 ∧ (year % 100 ≠ 0 ∨ year % 400 = 0) then 29 else 28
  else if month = 4 ∨ month = 6 ∨ month = 9 ∨ month = 11 then 30
  else 31

/-- A date of the calendar, in the years 1 to 9999. -/
def isValid (d : Date) : Bool :=
  1 ≤ d.year && d.year ≤ 9999 && 1 ≤ d.month && d.month ≤ 12 && 1 ≤ d.day &&
    d.day ≤ daysIn d.year d.month

/-- Days since the first of March of the year zero. -/
def dayNumber (d : Date) : Int :=
  let y : Int := if d.month ≤ 2 then (d.year : Int) - 1 else d.year
  let m : Int := if d.month ≤ 2 then d.month + 9 else (d.month : Int) - 3
  365 * y + y.fdiv 4 - y.fdiv 100 + y.fdiv 400 + (153 * m + 2) / 5 + d.day - 1

/-- The date with a given day number. -/
def ofDayNumber (n : Int) : Date :=
  let era := n.fdiv 146097
  let doe := (n - era * 146097).toNat
  let yoe := (doe - doe / 1460 + doe / 36524 - doe / 146096) / 365
  let doy := doe - (365 * yoe + yoe / 4 - yoe / 100)
  let mp := (5 * doy + 2) / 153
  let day := doy - (153 * mp + 2) / 5 + 1
  let month := if mp < 10 then mp + 3 else mp - 9
  let year : Int := yoe + era * 400 + (if month ≤ 2 then 1 else 0)
  ⟨year.toNat, month, day⟩

/-- Year, month and day joined by hyphens. -/
def text (d : Date) : String :=
  padded 4 d.year ++ "-" ++ padded 2 d.month ++ "-" ++ padded 2 d.day

end Date

namespace TimeOfDay

/-- A time of the clock. -/
def isValid (t : TimeOfDay) : Bool :=
  t.hour < 24 && t.minute < 60 && t.second < 60 && t.microsecond < 1000000

/-- Seconds since midnight. -/
def seconds (t : TimeOfDay) : Nat := t.hour * 3600 + t.minute * 60 + t.second

/-- Sign, hours and minutes of an offset, and its seconds if there are any. -/
def offsetText (o : Int) : String :=
  let n := o.natAbs
  (if o < 0 then "-" else "+") ++ padded 2 (n / 3600) ++ ":" ++ padded 2 (n / 60 % 60) ++
    (if n % 60 = 0 then "" else ":" ++ padded 2 (n % 60))

/-- Hours, minutes and seconds, a fraction if there is one, and the offset if it is known. -/
def text (t : TimeOfDay) : String :=
  padded 2 t.hour ++ ":" ++ padded 2 t.minute ++ ":" ++ padded 2 t.second ++
    (if t.microsecond = 0 then "" else "." ++ padded 6 t.microsecond) ++
    (match t.offset with
      | none => ""
      | some o => offsetText o)

end TimeOfDay

/-- A duration of `seconds`: days, if there are any, and the rest of the day on the clock. -/
def durationText (seconds : Int) : String :=
  let days := seconds.fdiv 86400
  let rest := (seconds.fmod 86400).toNat
  let clock := toString (rest / 3600) ++ ":" ++ padded 2 (rest / 60 % 60) ++ ":" ++
    padded 2 (rest % 60)
  if days = 0 then clock
  else toString days ++ " day" ++ (if days.natAbs = 1 then "" else "s") ++ ", " ++ clock

/-- A whole text of ASCII digits as a number. -/
def readDigits? (s : List Char) : Option Nat :=
  if s.isEmpty || !s.all Text.isDigit then none else some (Text.digitsValue s)

/-- Reads a date of the form `YYYY-MM-DD`. -/
def Date.read? (s : List Char) : Option Date := do
  match s with
  | [a, b, c, d, '-', e, f, '-', g, h] =>
    let date : Date := ⟨← readDigits? [a, b, c, d], ← readDigits? [e, f], ← readDigits? [g, h]⟩
    if date.isValid then some date else none
  | _ => none

/-- Reads an offset: `Z`, or a sign with hours, minutes and perhaps seconds. -/
def readOffset? (s : List Char) : Option (Option Int) := do
  match s with
  | [] => some none
  | ['Z'] => some (some 0)
  | sign :: a :: b :: ':' :: c :: d :: rest =>
    let h ← readDigits? [a, b]
    let m ← readDigits? [c, d]
    let sec ← match rest with
      | [] => some 0
      | [':', e, f] => readDigits? [e, f]
      | _ => none
    let n : Int := h * 3600 + m * 60 + sec
    if sign = '+' then some (some n) else if sign = '-' then some (some (-n)) else none
  | _ => none

/-- Reads a time of day of the form `HH:MM[:SS[.ffffff]]` with an optional offset. -/
def TimeOfDay.read? (s : List Char) : Option TimeOfDay := do
  match s with
  | a :: b :: ':' :: c :: d :: rest =>
    let h ← readDigits? [a, b]
    let m ← readDigits? [c, d]
    let (sec, rest) ← match rest with
      | ':' :: e :: f :: rest => (readDigits? [e, f]).map (·, rest)
      | rest => some (0, rest)
    let (micro, rest) ← match rest with
      | '.' :: rest =>
        let ds := rest.takeWhile Text.isDigit
        (readDigits? ((ds ++ List.replicate 6 '0').take 6)).map (·, rest.dropWhile Text.isDigit)
      | rest => some (0, rest)
    let t : TimeOfDay := ⟨h, m, sec, micro, ← readOffset? rest⟩
    if t.isValid then some t else none
  | _ => none

/-- Reads a date and a time of day with one character in between. -/
def readDateTime? (s : List Char) : Option (Date × TimeOfDay) := do
  let d ← Date.read? (s.take 10)
  let t ← TimeOfDay.read? (s.drop 11)
  some (d, t)

end Dotpath

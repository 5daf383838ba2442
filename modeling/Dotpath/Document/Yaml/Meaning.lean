import Dotpath.Document.Yaml.Scalar
import Dotpath.Document.Yaml.Tag
import Dotpath.Number.Arithmetic

/-!
# What scalars mean

The value of a scalar's text under a tag.  A plain scalar has a tag that suits its text, but a tag
can be written in front of any text, so each reading can fail.
-/

namespace Dotpath.Yaml

/-! ## Numbers -/

/-- An integer in a base other than ten, with a sign and the mark of the base allowed in front. -/
def integerIn? (base : Nat) (mark : Char) (text : List Char) : Option Int :=
  let (negative, body) := splitSign (stripAscii (asciiDigits text))
  let body := match body with
    | '0' :: m :: rest => if m.toLower == mark && !rest.isEmpty then rest else body
    | body => body
  let value := body.foldl (fun n c => do
    let d ← Json.hexValue? c
    if d < base then return (← n) * base + d else none) (some 0)
  match body, value with
  | _ :: _, some n => some (if negative then -n else n)
  | _, _ => none

/-- An integer in a base other than ten. -/
def integerIn (base : Nat) (mark : Char) (text : List Char) : Except Fault Int :=
  match integerIn? base mark text with
  | some n => .ok n
  | none => .error (.notInteger base (String.ofList text))

/-- A decimal integer. -/
def decimalInteger (text : List Char) : Except Fault Int :=
  match readInteger text with
  | .ok n => .ok n
  | .error (.tooLong n) => .error (.tooManyDigits n)
  | .error .malformed => .error (.notInteger 10 (String.ofList text))

/-- Sign and rest of a number's text, which cannot be empty. -/
def signed (text : List Char) : Except Fault (Bool × List Char) :=
  if text.isEmpty then .error (.raised .indexError [.scalar (.text "string index out of range")])
  else .ok (splitSign text)

/-- The value of an integer's text. -/
def integerValue (text : String) : Except Fault Int := do
  let (negative, body) ← signed (text.toList.filter (· != '_'))
  let n ← match body with
    | ['0'] => pure 0
    | '0' :: 'b' :: ds => integerIn 2 'b' ds
    | '0' :: 'x' :: ds => integerIn 16 'x' ds
    | '0' :: _ => integerIn 8 'o' body
    | [] => throw (.raised .indexError [.scalar (.text "string index out of range")])
    | _ =>
      if body.contains ':' then do
        let parts ← (body.splitOn ':').mapM decimalInteger
        pure (parts.foldl (fun n d => n * 60 + d) 0)
      else decimalInteger body
  return if negative then -n else n

/-- A floating-point number in base ten. -/
def decimalFloat (text : List Char) : Except Fault Binary64 :=
  match Binary64.read? text with
  | some x => .ok x
  | none => .error (.notFloat (String.ofList text))

/-- The sum of digits in base sixty, the last one first. -/
def sixtiesSum (sum : Binary64) (base : Nat) : List Binary64 → Binary64
  | [] => sum
  | d :: ds =>
    let unit := (Binary64.ofInt? base).getD (Binary64.infinity false)
    sixtiesSum (sum.add (d.mul unit)) (base * 60) ds

/-- The value of a floating-point number's text. -/
def floatValue (text : String) : Except Fault Binary64 := do
  let cs := Text.lower (text.toList.filter (· != '_'))
  let (negative, body) ← signed cs
  let x ←
    if body == ".inf".toList then pure (Binary64.infinity false)
    else if body == ".nan".toList then pure Binary64.nan
    else if body.contains ':' then do
      let parts ← (body.splitOn ':').mapM decimalFloat
      pure (sixtiesSum Binary64.zero 1 parts.reverse)
    else decimalFloat body
  return if negative && !x.isNaN then x.neg else x

/-- Whether a floating-point number's text stands for the value of documents that is no number.  Other
texts that mean no number make a value of their own. -/
def isUndefinedText (text : String) : Bool :=
  match signed (Text.lower (text.toList.filter (· != '_'))) with
  | .ok (_, body) => body == ".nan".toList
  | .error _ => false

/-! ## Times -/

/-- A date of the calendar. -/
def calendarDate (t : Tag.TimeText) : Except Fault Date :=
  let d : Date := ⟨Text.digitsValue t.year, Text.digitsValue t.month, Text.digitsValue t.day⟩
  if d.year = 0 then .error (.calendar "year 0 is out of range")
  else if d.month = 0 ∨ d.month > 12 then .error (.calendar "month must be in 1..12")
  else if d.isValid then .ok d
  else .error (.calendar "day is out of range for month")

/-- An offset of less than a day, in seconds. -/
def calendarOffset (negative : Bool) (hours minutes : List Char) : Except Fault Int :=
  let n : Int := Text.digitsValue hours * 3600 + Text.digitsValue minutes * 60
  let n := if negative then -n else n
  if n.natAbs < 86400 then .ok n
  else
    let seconds := n.fmod 86400
    .error (.calendar ("offset must be a timedelta strictly between -timedelta(hours=24) and " ++
      "timedelta(hours=24), not datetime.timedelta(days=" ++ toString (n.fdiv 86400) ++
      (if seconds = 0 then "" else ", seconds=" ++ toString seconds) ++ ")."))

/-- The value of a time's text. -/
def timeValue (text : String) : Except Fault Scalar :=
  let cs := text.toList
  match Tag.timeText? (if cs.getLast? == some '\n' then cs.dropLast else cs) with
  | none => .error (.noAttribute "NoneType" "groupdict")
  | some t => match t.clock with
    | none => do return .date (← calendarDate t)
    | some (hour, minute, second, fraction) => do
      let offset ← match t.offset with
        | none => pure none
        | some none => pure (some 0)
        | some (some (negative, hours, minutes)) => do
          pure (some (← calendarOffset negative hours minutes))
      let date ← calendarDate t
      let micro := Text.digitsValue ((fraction ++ List.replicate 6 '0').take 6)
      let time : TimeOfDay :=
        ⟨Text.digitsValue hour, Text.digitsValue minute, Text.digitsValue second, micro, offset⟩
      if time.hour ≥ 24 then throw (.calendar "hour must be in 0..23")
      else if time.minute ≥ 60 then throw (.calendar "minute must be in 0..59")
      else if time.second ≥ 60 then throw (.calendar "second must be in 0..59")
      else return .dateTime date time

/-! ## Bytes -/

/-- The value of a digit in base sixty-four. -/
def sextet? (c : Char) : Option Nat :=
  if c.isUpper then some (c.toNat - 65)
  else if c.isLower then some (c.toNat - 71)
  else if c.isDigit then some (c.toNat + 4)
  else if c == '+' then some 62
  else if c == '/' then some 63
  else none

/-- Bytes in base sixty-four: `count` digits of the current group of four are read, and `rest` is
what they leave over.  Other characters are skipped, and padding ends the text. -/
def sextetBytes (count rest pads : Nat) (acc : List UInt8) : List Char → Option (List UInt8)
  | [] => if count = 0 then some acc.reverse else none
  | c :: cs =>
    if c == '=' then
      if count ≥ 2 then
        if count + pads + 1 ≥ 4 then some acc.reverse
        else sextetBytes count rest (pads + 1) acc cs
      else sextetBytes count rest pads acc cs
    else match sextet? c with
      | none => sextetBytes count rest pads acc cs
      | some d =>
        match count with
        | 0 => sextetBytes 1 d 0 acc cs
        | 1 => sextetBytes 2 (d % 16) 0 (UInt8.ofNat (rest * 4 + d / 16) :: acc) cs
        | 2 => sextetBytes 3 (d % 4) 0 (UInt8.ofNat (rest * 16 + d / 4) :: acc) cs
        | _ => sextetBytes 0 0 0 (UInt8.ofNat (rest * 64 + d) :: acc) cs

/-! ## All tags -/

/-- The value of a text under a tag of scalars; `none` for the other tags. -/
def Tag.scalar? (tag : Tag) (text : String) : Option (Except Fault Scalar) :=
  match tag with
  | .null => some (.ok .null)
  | .bool =>
    let word := String.ofList (Text.lower text.toList)
    some (match boolWords.lookup word with
      | some b => .ok (.bool b)
      | none => .error (.raised .keyError [.scalar (.text word)]))
  | .int => some (do return .int (← integerValue text))
  | .float => some (do return .float (← floatValue text))
  | .binary => some (
    if text.toList.any (·.toNat ≥ 128) then malformed
    else match sextetBytes 0 0 0 [] text.toList with
      | some bs => .ok (.bytes bs)
      | none => malformed)
  | .timestamp => some (timeValue text)
  | .str => some (.ok (.text text))
  | _ => none

end Dotpath.Yaml

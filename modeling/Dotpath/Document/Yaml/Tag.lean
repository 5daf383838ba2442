import Dotpath.Text.Classes

/-!
# Tags of YAML nodes

The tag of a node says how its content becomes a value.  A plain scalar without a tag gets one by
its text: `Tag.ofPlain` knows the texts of truth values, numbers, nulls and times, and everything
else is text.
-/

namespace Dotpath.Yaml

/-- A tag. -/
inductive Tag where
  | null | bool | int | float | binary | timestamp | omap | pairs | set | str | seq | map
  /-- The key that merges a mapping into another. -/
  | merge
  /-- The key of a mapping's default value. -/
  | value
  | other (uri : String)
  deriving DecidableEq, Repr, Inhabited

namespace Tag

/-- The start of the tags that every document knows. -/
def home : String := "tag:yaml.org,2002:"

/-- The names of the known tags. -/
def names : List (String × Tag) :=
  [("null", null), ("bool", bool), ("int", int), ("float", float), ("binary", binary),
    ("timestamp", timestamp), ("omap", omap), ("pairs", pairs), ("set", set), ("str", str),
    ("seq", seq), ("map", map), ("merge", merge), ("value", value)]

/-- The tag with a full name. -/
def ofUri (uri : String) : Tag :=
  match names.find? fun (n, _) => home ++ n == uri with
  | some (_, t) => t
  | none => other uri

/-! ## The texts of plain scalars -/

/-- The rest after characters that pass a test. -/
def after (p : Char → Bool) (cs : List Char) : List Char := cs.dropWhile p

/-- A decimal digit or an underscore. -/
def isDigitOrGap (c : Char) : Bool := Text.isDigit c || c == '_'

/-- The text without a sign at its front. -/
def unsigned : List Char → List Char
  | '-' :: cs => cs
  | '+' :: cs => cs
  | cs => cs

/-- A text of one character at least, all of which pass a test. -/
def allOf (p : Char → Bool) (cs : List Char) : Bool := !cs.isEmpty && cs.all p

/-- Parts in base sixty after a colon each, and the rest. -/
def sixties : (parts : Nat) → List Char → Nat × List Char
  | n, ':' :: a :: b :: cs =>
    if ('0' ≤ a && a ≤ '5') && Text.isDigit b then sixties (n + 1) cs
    else if Text.isDigit a then sixties (n + 1) (b :: cs)
    else (n, ':' :: a :: b :: cs)
  | n, [':', a] => if Text.isDigit a then (n + 1, []) else (n, [':', a])
  | n, cs => (n, cs)

/-- The texts of truth values, in small letters. -/
def boolWords : List (String × Bool) :=
  [("yes", true), ("no", false), ("true", true), ("false", false), ("on", true), ("off", false)]

/-- A word in small letters, in capitals, or with one capital in front. -/
def isCased (word : String) (cs : List Char) : Bool :=
  let capitals := word.toList.map Char.toUpper
  cs == word.toList || cs == capitals || cs == capitals.take 1 ++ word.toList.drop 1

/-- Nothing, or an exponent with its sign. -/
def isExponent : List Char → Bool
  | [] => true
  | e :: sign :: ds => (e == 'e' || e == 'E') && (sign == '-' || sign == '+') &&
      allOf Text.isDigit ds
  | _ => false

/-- The text of a floating-point number. -/
def isFloat (cs : List Char) : Bool :=
  let body := unsigned cs
  let whole : Bool := match body with
    | d :: rest =>
      Text.isDigit d &&
        match after isDigitOrGap rest with
        | '.' :: rest => isExponent (after isDigitOrGap rest)
        | rest => match sixties 0 rest with
          | (_ + 1, '.' :: rest) => rest.all isDigitOrGap
          | _ => false
    | [] => false
  let part : Bool := match cs with
    | '.' :: d :: rest => Text.isDigit d && isExponent (after isDigitOrGap rest)
    | _ => false
  let word : Bool := match body with
    | '.' :: rest => rest == "inf".toList || rest == "Inf".toList || rest == "INF".toList
    | _ => false
  let undefined := cs == ".nan".toList || cs == ".NaN".toList || cs == ".NAN".toList
  whole || part || word || undefined

/-- The text of an integer: binary, octal, decimal, hexadecimal, or in base sixty. -/
def isInt (cs : List Char) : Bool :=
  match unsigned cs with
  | ['0'] => true
  | '0' :: 'b' :: ds => allOf (fun c => c == '0' || c == '1' || c == '_') ds
  | '0' :: 'x' :: ds =>
    allOf (fun c => isDigitOrGap c || ('a' ≤ c && c ≤ 'f') || ('A' ≤ c && c ≤ 'F')) ds
  | '0' :: ds => allOf (fun c => ('0' ≤ c && c ≤ '7') || c == '_') ds
  | d :: rest => Text.isDigit d && (sixties 0 (after isDigitOrGap rest)).2.isEmpty
  | [] => false

/-- The parts of a time's text. -/
structure TimeText where
  year : List Char
  month : List Char
  day : List Char
  /-- Hour, minute, second, and the digits of the fraction. -/
  clock : Option (List Char × List Char × List Char × List Char) := none
  /-- Universal time, or sign, hours and minutes of an offset. -/
  offset : Option (Option (Bool × List Char × List Char)) := none

/-- One or two digits and the rest. -/
def oneOrTwo? : List Char → Option (List Char × List Char)
  | a :: b :: cs =>
    if Text.isDigit a then
      if Text.isDigit b then some ([a, b], cs) else some ([a], b :: cs)
    else none
  | [a] => if Text.isDigit a then some ([a], []) else none
  | [] => none

/-- A colon with two digits and the rest. -/
def colonTwo? : List Char → Option (List Char × List Char)
  | ':' :: a :: b :: cs => if Text.isDigit a && Text.isDigit b then some ([a, b], cs) else none
  | _ => none

/-- The offset of a time and nothing after it. -/
def offset? (cs : List Char) : Option (Option (Option (Bool × List Char × List Char))) :=
  match after (fun c => c == ' ' || c == '\t') cs with
  | [] => if cs.isEmpty then some none else none
  | ['Z'] => some (some none)
  | sign :: rest =>
    if sign == '-' || sign == '+' then do
      let (hours, rest) ← oneOrTwo? rest
      match rest with
      | [] => some (some (some (sign == '-', hours, [])))
      | rest => do
        let (minutes, rest) ← colonTwo? rest
        if rest.isEmpty then some (some (some (sign == '-', hours, minutes))) else none
    else none

/-- A date, perhaps with a time of day and an offset. -/
def timeText? (cs : List Char) : Option TimeText := do
  let year := cs.take 4
  if year.length < 4 || !year.all Text.isDigit then none
  else match cs.drop 4 with
    | '-' :: rest => do
      let (month, rest) ← oneOrTwo? rest
      match rest with
      | '-' :: rest => do
        let (day, rest) ← oneOrTwo? rest
        match rest with
        | [] => some { year, month, day }
        | x :: more => do
          let blank (c : Char) : Bool := c == ' ' || c == '\t'
          let rest ← if x == 'T' || x == 't' then some more
            else if blank x then some (after blank more) else none
          let (hour, rest) ← oneOrTwo? rest
          let (minute, rest) ← colonTwo? rest
          let (second, rest) ← colonTwo? rest
          let (fraction, rest) := match rest with
            | '.' :: rest => (rest.takeWhile Text.isDigit, after Text.isDigit rest)
            | rest => ([], rest)
          let offset ← offset? rest
          some { year, month, day, clock := some (hour, minute, second, fraction), offset }
      | _ => none
    | _ => none

/-- The text of a time.  A date alone has two digits in each of its later parts. -/
def isTimestamp (cs : List Char) : Bool :=
  match timeText? cs with
  | none => false
  | some t => t.clock.isSome || (t.month.length == 2 && t.day.length == 2)

/-- The tag of a plain scalar by its text, which may end in one line break. -/
def ofPlain (text : String) : Tag :=
  let cs := text.toList
  let cs := if cs.getLast? == some '\n' then cs.dropLast else cs
  if text.isEmpty then null
  else if boolWords.any fun (w, _) => isCased w cs then bool
  else if isFloat cs then float
  else if isInt cs then int
  else if cs == ['<', '<'] then merge
  else if cs == ['~'] || isCased "null" cs then null
  else if isTimestamp cs then timestamp
  else if cs == ['='] then value
  else if cs == ['!'] || cs == ['&'] || cs == ['*'] then other (home ++ "yaml")
  else str

end Tag

end Dotpath.Yaml

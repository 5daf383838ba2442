import Dotpath.Number.Shortest
import Dotpath.Scalar.Basic
import Dotpath.Text.Quoted

/-!
# Texts of scalars

The text of a scalar, and the quoted text that stands for it inside a container.  Integers of more
than `maxDigits` digits have no text.
-/

namespace Dotpath

/-- The decimal text of an integer, if it is not too long. -/
def integerText? (n : Int) : Option String :=
  let s := toString n.natAbs
  if s.length > maxDigits then none else some ((if n < 0 then "-" else "") ++ s)

/-- The text of a truth value. -/
def boolText (b : Bool) : String := if b then "True" else "False"

namespace Scalar

/-- The arguments that build a time of day, as text. -/
def timeArguments (t : TimeOfDay) : List String :=
  let zone := match t.offset with
    | none => []
    | some 0 => ["tzinfo=datetime.timezone.utc"]
    | some o =>
      let days := o.fdiv 86400
      let parts := (if days = 0 then [] else ["days=" ++ toString days]) ++
        ["seconds=" ++ toString (o.fmod 86400)]
      ["tzinfo=datetime.timezone(datetime.timedelta(" ++ Text.commas parts ++ "))"]
  let small := if t.microsecond ≠ 0 then [toString t.second, toString t.microsecond]
    else if t.second ≠ 0 then [toString t.second] else []
  [toString t.hour, toString t.minute] ++ small ++ zone

/-- The arguments that build a date, as text. -/
def dateArguments (d : Date) : List String := [toString d.year, toString d.month, toString d.day]

/-- The value of a member of the enumeration of colours. -/
def colourValue (member : String) : Int := if member = "RED" then 1 else 2

/-- The text of a scalar.  A machine scalar shows as the plain value it holds. -/
def text? : Scalar → Option String
  | null => some "None"
  | bool b => some (boolText b)
  | int n => integerText? n
  | float x => some x.text
  | complex re im => some (complexText re im)
  | text s => some s
  | bytes bs => some (Text.quotedBytes bs)
  | memory _ => some "<memory>"
  | decimal s | fraction s | uuid s | filePath s => some s
  | date d => some d.text
  | dateTime d t => some (d.text ++ " " ++ t.text)
  | time t => some t.text
  | duration s => some (durationText s)
  | colour m => some ("Color." ++ m)
  | .class n => some ("<class '" ++ qualifiedName n ++ "'>")
  | machine _ v => v.text?

/-- The quoted text of a scalar. -/
def quoted? : Scalar → Option String
  | text s => some (Text.quoted s)
  | decimal s => some ("Decimal(" ++ Text.quoted s ++ ")")
  | fraction s =>
    let parts := s.splitOn "/"
    some ("Fraction(" ++ parts.headD "" ++ ", " ++ (parts.drop 1).headD "1" ++ ")")
  | uuid s => some ("UUID(" ++ Text.quoted s ++ ")")
  | filePath s => some ("PurePosixPath(" ++ Text.quoted s ++ ")")
  | date d => some ("datetime.date(" ++ Text.commas (dateArguments d) ++ ")")
  | dateTime d t =>
    some ("datetime.datetime(" ++ Text.commas (dateArguments d ++ timeArguments t) ++ ")")
  | time t => some ("datetime.time(" ++ Text.commas (timeArguments t) ++ ")")
  | duration s =>
    let days := s.fdiv 86400
    let rest := s.fmod 86400
    let parts := (if days = 0 then [] else ["days=" ++ toString days]) ++
      (if rest = 0 then [] else ["seconds=" ++ toString rest])
    some ("datetime.timedelta(" ++ (if parts.isEmpty then "0" else Text.commas parts) ++ ")")
  | colour m => some ("<Color." ++ m ++ ": " ++ toString (colourValue m) ++ ">")
  | machine type v =>
    match v with
    | bool b => some ("np." ++ boolText b ++ "_")
    | v =>
      match v.text?, quoted? v with
      | some t, some q =>
        let shown := match type, v with
          | _, text _ => q
          | "float32", float x => x.singleText
          | _, _ => t
        some ("np." ++ type ++ "(" ++ shown ++ ")")
      | _, _ => none
  | s => s.text?

end Scalar

end Dotpath

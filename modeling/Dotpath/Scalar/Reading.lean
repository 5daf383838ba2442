import Dotpath.Fault
import Dotpath.Number.Reading

/-!
# Reading scalars

Numbers read from texts, with the fault of a text that is none.
-/

namespace Dotpath

/-- Reads an integer text. -/
def parseInteger (s : String) : Except Fault Int :=
  match readInteger s.toList with
  | .ok n => .ok n
  | .error .malformed => .error (.notInteger 10 s)
  | .error (.tooLong n) => .error (.tooManyDigits n)

/-- Reads the text of a floating-point number. -/
def parseFloat (s : String) : Except Fault Binary64 :=
  match Binary64.read? s.toList with
  | some x => .ok x
  | none => .error (.notFloat s)

end Dotpath

import Dotpath.Graph.Members

/-!
# Texts of arrays

An array shows its elements in rows, one row to a line, all elements as wide as the widest.
Floating-point elements have at most eight places and are aligned at the point.
-/

namespace Dotpath

/-- The digits before and after the point of an element, rounded to eight places. -/
def realParts (x : Binary64) : String × String :=
  match x.magnitude with
  | .undefined => ("nan", "")
  | .infinite negative => (if negative then "-inf" else "inf", "")
  | .finite .. =>
    match x.ratio? with
    | none => ("", "")
    | some (num, den) =>
      let scaled := divNearest (num.natAbs * tenTo 8) den
      let digits := toString (scaled % tenTo 8)
      let padded := "".pushn '0' (8 - digits.length) ++ digits
      let kept := String.ofList ((padded.toList.reverse.dropWhile (· == '0')).reverse)
      ((if x.isNegative then "-" else "") ++ toString (scaled / tenTo 8), "." ++ kept)

/-- Texts of equal width: filled with spaces on the left. -/
def alignRight (texts : List String) : List String :=
  let width := (texts.map String.length).foldl max 0
  texts.map fun t => "".pushn ' ' (width - t.length) ++ t

/-- Texts of equal width: filled with spaces on the right. -/
def alignLeft (texts : List String) : List String :=
  let width := (texts.map String.length).foldl max 0
  texts.map fun t => t.pushn ' ' (width - t.length)

/-- The floating-point elements of an array, aligned at the point. -/
def realTexts (xs : List Binary64) : List String :=
  let parts := xs.map realParts
  ((alignRight (parts.map (·.1))).zip (alignLeft (parts.map (·.2)))).map fun (a, b) => a ++ b

/-- The number behind a floating-point element. -/
def realCell : Value → Binary64
  | .scalar (.float x) => x
  | _ => Binary64.nan

/-- The rows of an array in brackets, for elements that have texts already. -/
def gridRows (separator : String) : (shape : List Nat) → (indent : Nat) → List String → String
  | [], _, texts => texts.headD ""
  | [_], _, texts => "[" ++ String.intercalate separator texts ++ "]"
  | n :: shape, indent, texts =>
    let size := cellCount shape
    let rows := (List.range n).map fun i =>
      gridRows separator shape (indent + 1) ((texts.drop (i * size)).take size)
    let newlines := "".pushn '\n' shape.length
    let gap := (String.ofList (separator.toList.filter (· != ' '))) ++ newlines ++
      "".pushn ' ' (indent + 1)
    "[" ++ String.intercalate gap rows ++ "]"

end Dotpath

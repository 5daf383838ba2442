import Dotpath.Scalar.Basic

/-!
# Element types of arrays

A fixed-size array holds elements of one type, which is written as a byte order, a letter for the
form and a size: `<i8`, `|u1`, `<f4`, `|b1`, `<U2`, `|S2`, `|O`, `<c16`, `<M8[D]`.
-/

namespace Dotpath

/-- The number of cells of an array with a shape. -/
def cellCount : List Nat → Nat
  | [] => 1
  | n :: shape => n * cellCount shape

/-- The form of an array's elements. -/
inductive ElementForm where
  | object | text | bytes | truth | signed | unsigned | real | complex | date | duration | other
  deriving DecidableEq, Repr, Inhabited

/-- The type of an array's elements: its written form, and what follows from it. -/
structure ElementType where
  name : String
  form : ElementForm
  /-- Bytes of an element; characters for text. -/
  size : Nat
  deriving DecidableEq, Repr, Inhabited

namespace ElementType

/-- The form for a letter. -/
def formOf : Char → ElementForm
  | 'O' => .object
  | 'U' => .text
  | 'S' => .bytes
  | 'b' => .truth
  | 'i' => .signed
  | 'u' => .unsigned
  | 'f' => .real
  | 'c' => .complex
  | 'M' => .date
  | 'm' => .duration
  | _ => .other

/-- Reads a written element type: byte order, letter, size. -/
def ofName (name : String) : ElementType :=
  match name.toList with
  | _ :: c :: digits =>
    ⟨name, formOf c, ((String.ofList (digits.takeWhile Char.isDigit)).toNat?).getD 0⟩
  | _ => ⟨name, .other, 0⟩

/-- Whether the elements refer to values, or are texts, instead of being machine values. -/
def isReference (t : ElementType) : Bool :=
  t.form == .object || t.form == .text || t.form == .bytes

/-- The least and the greatest integer of a signed or unsigned type of `size` bytes. -/
def integerBounds (signed : Bool) (size : Nat) : Int × Int :=
  if signed then (-(twoTo (8 * size - 1)), twoTo (8 * size - 1) - 1) else (0, twoTo (8 * size) - 1)

end ElementType

/-- The form and size of the elements behind the one-letter code of a plain array. -/
def codeElement (code : Char) : ElementForm × Nat :=
  match code with
  | 'b' => (.signed, 1)
  | 'B' => (.unsigned, 1)
  | 'h' => (.signed, 2)
  | 'H' => (.unsigned, 2)
  | 'i' => (.signed, 4)
  | 'I' => (.unsigned, 4)
  | 'l' | 'q' => (.signed, 8)
  | 'L' | 'Q' => (.unsigned, 8)
  | 'f' => (.real, 4)
  | 'd' => (.real, 8)
  | 'u' => (.text, 1)
  | _ => (.other, 0)

end Dotpath

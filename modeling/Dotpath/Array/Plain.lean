import Dotpath.Array.Cell

/-!
# Plain arrays

An array with a one-letter code and an array of bytes take a value exactly or report a fault.  An
integer passes several checks on its way in, from the widest form to that of the element, and the
first one it fails is told.
-/

namespace Dotpath

/-- The bounds that an integer must keep, and what is told if it is below or above them. -/
structure IntegerCheck where
  low : Int
  high : Int
  below : String
  above : String
  deriving Repr

namespace IntegerCheck

/-- The check of a named form. -/
def named (signed : Bool) (size : Nat) (form : String) : IntegerCheck :=
  let (low, high) := ElementType.integerBounds signed size
  ⟨low, high, form ++ " is less than minimum", form ++ " is greater than maximum"⟩

/-- The check of the widest signed form. -/
def wide (complaint : String) : IntegerCheck :=
  let (low, high) := ElementType.integerBounds true 8
  ⟨low, high, complaint, complaint⟩

/-- The check of the widest unsigned form. -/
def wideUnsigned (below above : String) : IntegerCheck :=
  ⟨0, (ElementType.integerBounds false 8).2, below, above⟩

/-- The checks on the way into an array with a code. -/
def ofCode (code : Char) : List IntegerCheck :=
  let long := wide "Python int too large to convert to C long"
  let unsignedLong := wideUnsigned "can't convert negative value to unsigned int"
    "Python int too large to convert to C unsigned long"
  match code with
  | 'b' => [long, named true 2 "signed short integer", named true 1 "signed char"]
  | 'B' => [long, named false 1 "unsigned byte integer"]
  | 'h' => [long, named true 2 "signed short integer"]
  | 'H' => [long, named true 4 "signed integer", named false 2 "unsigned short"]
  | 'i' => [long, named true 4 "signed integer"]
  | 'I' => [unsignedLong, named false 4 "unsigned int"]
  | 'l' => [long]
  | 'L' => [unsignedLong]
  | 'q' => [wide "int too big to convert"]
  | _ => [wideUnsigned "can't convert negative int to unsigned" "int too big to convert"]

/-- What is told of an integer that fails one of the checks. -/
def complaint (checks : List IntegerCheck) (n : Int) : String :=
  match checks.find? fun c => n < c.low || c.high < n with
  | some c => if n < c.low then c.below else c.above
  | none => ""

end IntegerCheck

/-- The integer that a scalar stands for as a machine value.  Truth values of arrays are none. -/
def Scalar.index? : Scalar → Option Int
  | .int n | .machine _ (.int n) => some n
  | .bool b => some (if b then 1 else 0)
  | _ => none

/-- The fault of a value that is no integer. -/
def notIndex {α : Type} (type : String) : Except Fault α :=
  .error (.element .typeError ("'" ++ type ++ "' object cannot be interpreted as an integer"))

/-- A floating-point item of a plain array. -/
def realItem (size : Nat) (type : String) (s : Scalar) : Except Fault Scalar :=
  match s.plain with
  | .int _ | .float _ => do
    return .float (ElementType.roundReal size (← ElementType.realNumber s))
  | .bool _ | .decimal _ | .fraction _ => match s.quantity? with
    | some (.ratio n d, _) => .ok (.float (Binary64.ofRatio (n < 0) n.natAbs d))
    | some (.infinite negative, _) => .ok (.float (Binary64.infinity negative))
    | _ => .ok (.float Binary64.nan)
  | _ => .error (.element .typeError ("must be real number, not " ++ type))

/-- A one-character item of a plain array. -/
def characterItem (s : Scalar) : Except Fault Scalar :=
  let refuse := .error (.element .typeError "array item must be unicode character")
  match s.plain with
  | .text x => if x.length = 1 then .ok (.text x) else refuse
  | _ => refuse

/-- An integer item of a plain array. -/
def integerItem (code : Char) (type : String) (s : Scalar) : Except Fault Scalar :=
  let (form, size) := codeElement code
  match s.index? with
  | some n =>
    let (low, high) := ElementType.integerBounds (form == .signed) size
    if low ≤ n ∧ n ≤ high then .ok (.int n)
    else .error (.element .overflowError (IntegerCheck.complaint (IntegerCheck.ofCode code) n))
  | none => notIndex type

/-- A value of a type with the given name as an item of a plain array with the given code. -/
def plainCell (code : Char) (type : String) (v : Value) : Except Fault Scalar :=
  match v, codeElement code with
  | .scalar s, (.real, size) => realItem size type s
  | .scalar s, (.text, _) => characterItem s
  | .scalar s, _ => integerItem code type s
  | _, (.real, _) => .error (.element .typeError ("must be real number, not " ++ type))
  | _, (.text, _) => characterItem .null
  | _, _ => notIndex type

/-- A value of a type with the given name as a byte. -/
def byteCell (type : String) (v : Value) : Except Fault UInt8 :=
  match v with
  | .scalar s => match s.index? with
    | some n =>
      if 0 ≤ n ∧ n ≤ 255 then .ok n.toNat.toUInt8
      else .error (.element .valueError "byte must be in range(0, 256)")
    | none => notIndex type
  | _ => notIndex type

end Dotpath

import Dotpath.Graph.Members
import Dotpath.Scalar.Equality

/-!
# Cells of arrays

An array of machine values holds a value exactly or not at all.  `ElementType.accepts` says which
values an element type takes, and `ElementType.cell` is what the array holds for such a value.
-/

namespace Dotpath

namespace ElementType

/-- Whether a value can be stored without changing its meaning. -/
def accepts (t : ElementType) (v : Value) : Bool :=
  match t.form, v with
  | .object, _ => true
  | .text, .scalar s => match s.plain with
    | .text x => x.length ≤ t.size
    | _ => false
  | .text, _ => false
  | .bytes, .scalar s => match s.plain with
    | .bytes bs => bs.length ≤ t.size
    | _ => false
  | .bytes, _ => false
  | .truth, .scalar s => match s.plain with
    | .bool _ => true
    | _ => false
  | .truth, _ => false
  | .signed, .scalar s | .unsigned, .scalar s => match s.plain with
    | .int n =>
      let (low, high) := integerBounds (t.form == .signed) t.size
      low ≤ n && n ≤ high
    | _ => false
  | .signed, _ | .unsigned, _ => false
  | .real, .scalar s => match s.plain with
    | .int _ | .float _ => true
    | _ => false
  | .real, _ => false
  | .complex, .scalar s => match s.plain with
    | .int _ | .float _ | .complex .. => true
    | _ => false
  | .complex, _ => false
  | _, .scalar s => match s.plain with
    | .bool _ => false
    | _ => true
  | _, _ => true

/-- The format of a floating-point element of `size` bytes. -/
def realFormat (size : Nat) : BinaryFormat :=
  if size = 2 then .half else if size = 4 then .single else .double

/-- A number rounded to a floating-point element of `size` bytes. -/
def roundReal (size : Nat) (x : Binary64) : Binary64 :=
  if size = 8 then x else x.narrow (realFormat size)

/-- A number as a floating-point number; large integers have none. -/
def realNumber (s : Scalar) : Except Fault Binary64 :=
  match s.plain with
  | .float x => .ok x
  | .int n => match Binary64.ofInt? n with
    | some x => .ok x
    | none => .error (.element .overflowError "int too large to convert to float")
  | _ => .error (.element .typeError ("must be real number, not " ++ s.typeName))

/-- Elements of fixed size are filled up with zeros, and read without those at the end. -/
def trimEnd {α : Type} [BEq α] (zero : α) (xs : List α) : List α :=
  (xs.reverse.dropWhile (· == zero)).reverse

/-- The date that a date element makes of a text: a year, a month or a day. -/
def readDateText? (s : String) : Option Date :=
  let rest := if s.length = 4 then "-01-01" else if s.length = 7 then "-01" else ""
  Date.read? (s ++ rest).toList

/-- Days since the first of January 1970, as a date of the calendar if it has one. -/
def epochDay (n : Int) : Scalar :=
  let day := n + Date.dayNumber ⟨1970, 1, 1⟩
  if Date.dayNumber ⟨1, 1, 1⟩ ≤ day ∧ day ≤ Date.dayNumber ⟨9999, 12, 31⟩ then
    .date (Date.ofDayNumber day)
  else .int n

/-- A date out of what a date element takes. -/
def dateCell (s : Scalar) : Except Fault Value :=
  match s.plain with
  | .null => .ok (.scalar .null)
  | .date d | .dateTime d _ => .ok (.scalar (.date d))
  | .int n => .ok (.scalar (epochDay n))
  | .text t =>
    if t.isEmpty || t.toLower == "nat" then .ok (.scalar .null)
    else match readDateText? t with
      | some d => .ok (.scalar (.date d))
      | none => .error (.element .valueError
        ("Error parsing datetime string \"" ++ t ++ "\" at position 0"))
  | _ => .error (.element .valueError "Could not convert object to NumPy datetime")

/-- The cell that holds an accepted value. -/
def cell (t : ElementType) (v : Value) : Except Fault Value :=
  match t.form, v with
  | .object, v => .ok v
  | .real, .scalar s => do return .scalar (.float (roundReal t.size (← realNumber s)))
  | .complex, .scalar s =>
    let size := t.size / 2
    match s.plain with
    | .complex re im => .ok (.scalar (.complex (roundReal size re) (roundReal size im)))
    | s => do return .scalar (.complex (roundReal size (← realNumber s)) Binary64.zero)
  | .date, .scalar s => dateCell s
  | _, .scalar s => match s.plain with
    | .text x => .ok (.scalar (.text (String.ofList (trimEnd (Char.ofNat 0) x.toList))))
    | .bytes bs => .ok (.scalar (.bytes (trimEnd 0 bs)))
    | s => .ok (.scalar s)
  | _, _ => .error (.element .valueError "Could not convert object to NumPy datetime")

end ElementType

end Dotpath

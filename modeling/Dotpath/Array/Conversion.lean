import Dotpath.Array.Cell
import Dotpath.Scalar.Reading

/-!
# Converting elements

What an array makes of a scalar that it does not hold exactly: a fraction loses its part after the
point, a text is read as a number or cut to the size of an element, a number is written out.
Writing along a path never comes to this, for it keeps such values out; collecting results in an
array does.
-/

namespace Dotpath

/-- The whole part of a quantity, as an element that takes integers wants it. -/
def Quantity.whole (source : String) : Quantity → Except Fault Int
  | .ratio n d => .ok (n.tdiv d)
  | .infinite _ =>
    .error (.element .overflowError ("cannot convert " ++ source ++ "infinity to integer"))
  | .undefined => .error (.element .valueError ("cannot convert " ++ source ++ "NaN to integer"))

/-- A quantity as a floating-point number. -/
def Quantity.toReal : Quantity → Binary64
  | .ratio n d => Binary64.ofRatio (n < 0) n.natAbs d
  | .infinite negative => Binary64.infinity negative
  | .undefined => Binary64.nan

namespace ElementType

/-- The name of the type of a single element of `size` bytes. -/
def elementName (t : ElementType) : String :=
  (if t.form == .signed then "int" else "uint") ++ toString (8 * t.size)

/-- An integer within the bounds of the element type. -/
def bounded (t : ElementType) (n : Int) : Except Fault Value :=
  let (low, high) := integerBounds (t.form == .signed) t.size
  if low ≤ n ∧ n ≤ high then .ok (.scalar (.int n))
  else .error (.element .overflowError
    ("Python integer " ++ toString n ++ " out of bounds for " ++ t.elementName))

/-- An integer with only the bits that an element has room for. -/
def wrapped (t : ElementType) (n : Int) : Value :=
  let (low, high) := integerBounds (t.form == .signed) t.size
  .scalar (.int ((n - low).fmod (high - low + 1) + low))

/-- An integer element out of a scalar of a type with the given name. -/
def coerceInteger (t : ElementType) (type : String) (s : Scalar) : Except Fault Value :=
  match s with
  | .machine _ (.int n) => .ok (t.wrapped n)
  | s => match s.plain with
    | .int n => t.bounded n
    | .text x => parseInteger x >>= t.bounded
    | .float x => do return t.wrapped (← x.quantity.whole "float ")
    | .decimal x => do return t.wrapped (← (decimalQuantity x).whole "")
    | .fraction x => do return t.wrapped (← (fractionQuantity x).whole "")
    | .bool b => .ok (.scalar (.int (if b then 1 else 0)))
    | _ => .error (.element .typeError
      ("int() argument must be a string, a bytes-like object or a real number, not '" ++ type ++
        "'"))

/-- A floating-point element out of a scalar of a type with the given name. -/
def coerceReal (size : Nat) (type : String) (s : Scalar) : Except Fault Binary64 :=
  match s with
  | .machine _ (.complex re _) => .ok (roundReal size re)
  | s => match s.plain with
    | .null => .ok Binary64.nan
    | .text x => do return roundReal size (← parseFloat x)
    | .bool _ | .int _ | .float _ | .decimal _ | .fraction _ => match s.quantity? with
      | some (q, _) => .ok (roundReal size q.toReal)
      | none => .ok Binary64.nan
    | _ => .error (.element .typeError
      ("float() argument must be a string or a real number, not '" ++ type ++ "'"))

/-- Whether a scalar counts as true. -/
def truth (s : Scalar) : Bool :=
  match s.plain, s.quantity? with
  | .null, _ => false
  | .text x, _ => !x.isEmpty
  | .bytes bs, _ => !bs.isEmpty
  | _, some q => q != (.ratio 0 1, .ratio 0 1)
  | _, none => true

/-- The text that an element of characters keeps of a scalar. -/
def coerceText (size : Nat) (s : Scalar) : String :=
  let shown := match s.plain with
    | .bytes bs => String.ofList (bs.map fun (b : UInt8) => Char.ofNat b.toNat)
    | s => s.text?.getD ""
  String.ofList (trimEnd (Char.ofNat 0) (shown.toList.take size))

/-- The element that a scalar of a type with the given name is converted to. -/
def coerce (t : ElementType) (type : String) (s : Scalar) : Except Fault Value :=
  match t.form with
  | .signed | .unsigned => t.coerceInteger type s
  | .real => do return .scalar (.float (← coerceReal t.size type s))
  | .complex => do
    let x ← coerceReal (t.size / 2) type s
    return .scalar (.complex x (if s == .null then x else Binary64.zero))
  | .truth => .ok (.scalar (.bool (truth s)))
  | .text => .ok (.scalar (.text (coerceText t.size s)))
  | .bytes => .ok (.scalar (.bytes
      ((coerceText t.size s).toList.map fun c => c.toNat.toUInt8)))
  | _ => t.cell (.scalar s)

end ElementType

namespace Heap

/-- The cell that a value makes: itself if the element type takes it, or else what it is converted
to. -/
def convert (h : Heap) (t : ElementType) (v : Value) : Except Fault Value :=
  if t.accepts v then t.cell v
  else match v with
    | .scalar s => t.coerce (h.faultTypeName v) s
    | v =>
      if t.form == .truth then
        match h.length v with
        | .ok n => .ok (.scalar (.bool (n ≠ 0)))
        | .error _ => .ok (.scalar (.bool true))
      else .error (.element .valueError "setting an array element with a sequence.")

end Heap

end Dotpath

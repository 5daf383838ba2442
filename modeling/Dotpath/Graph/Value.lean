import Dotpath.Scalar.Equality

/-!
# Values

A value is immutable and lies inline, or it is the address of a node of the heap.  Rows of an array
are values too: they share the cells of the array they were taken from.
-/

namespace Dotpath

/-- The place of a node in the heap. -/
abbrev Address := Nat

/-- What a slot of a container holds. -/
inductive Value where
  | scalar (s : Scalar)
  | tuple (items : List Value)
  /-- A tuple of a named type with named places. -/
  | named (type : String) (fields : List String) (items : List Value)
  | frozenSet (items : List Value)
  | range (start stop step : Int)
  /-- A part of an array: the position of its first cell, and its shape. -/
  | row (array : Address) (offset : Nat) (shape : List Nat)
  | ref (a : Address)
  deriving Repr, Inhabited, BEq

/-- Whether a value is null. -/
def Value.isNull : Value → Bool
  | .scalar .null => true
  | _ => false

end Dotpath

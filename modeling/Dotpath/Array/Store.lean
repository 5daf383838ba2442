import Dotpath.Array.Conversion

/-!
# Storing into arrays

What is stored at a row of an array with several dimensions fills the whole row, unless it is a
sequence, whose members go to the members of the row one by one.
-/

namespace Dotpath

/-- Values with some of them replaced from a position on. -/
def overwrite (cells : List Value) (start : Nat) (new : List Value) : List Value :=
  cells.take start ++ new ++ cells.drop (start + new.length)

namespace Heap

/-- The members of a value that fills a row one by one. -/
def rowItems? (h : Heap) (v : Value) : Option (List Value) :=
  match v with
  | .tuple items | .named _ _ items => some items
  | .range start stop step =>
    some ((List.range (rangeSize start stop step)).map fun i =>
      .scalar (.int (rangeItem start step i)))
  | .row a offset shape => some (gridMembers a offset shape (h.gridCells a))
  | .ref a => match h.get? a with
    | some (.list items) | some (.deque items) | some (.userSeq items _ _ _) => some items
    | some (.byteArray bs) => some (bs.map byteValue)
    | some (.cells _ items) => some (items.map .scalar)
    | some (.grid _ shape items _) => some (gridMembers a 0 shape items)
    | _ => none
  | _ => none

/-- A list of lengths as it shows itself. -/
def shapeText (shape : List Nat) : String :=
  match shape with
  | [n] => "(" ++ toString n ++ ",)"
  | shape => "(" ++ ",".intercalate (shape.map toString) ++ ")"

/-- The values that a value puts into the cells of a part of an array with the given shape.  A
single member fills the whole part. -/
def spread (h : Heap) : (shape : List Nat) → Value → Except Fault (List Value)
  | [], v => .ok [v]
  | n :: shape, v =>
    match h.rowItems? v with
    | none => .ok (List.replicate (n * cellCount shape) v)
    | some items =>
      if items.length = n then do return (← items.mapM (spread h shape)).flatten
      else match items with
        | [item] => do return (List.replicate n (← spread h shape item)).flatten
        | _ => .error (.element .valueError
          ("could not broadcast input array from shape " ++ shapeText [items.length] ++
            " into shape " ++ shapeText (n :: shape)))

/-- The cells that a value fills in a part of an array with the given shape. -/
def fill (h : Heap) (t : ElementType) (shape : List Nat) (v : Value) :
    Except Fault (List Value) :=
  match v with
  | .scalar _ => do return List.replicate (cellCount shape) (← h.convert t v)
  | v => do (← h.spread shape v).mapM (h.convert t)

/-- Assigns a member of an array, or of the part of it that starts at `offset`. -/
def storeMember (h : Heap) (a : Address) (offset : Nat) (shape : List Nat) (i : Nat) (v : Value) :
    Except Fault Heap :=
  match h.get? a with
  | some (.grid t whole cells writeable) =>
    if !writeable then .error (.element .valueError "assignment destination is read-only")
    else do
      let inner := shape.drop 1
      let new ← h.fill t inner v
      return h.set a
        (.grid t whole (overwrite cells (offset + i * cellCount inner) new) writeable)
  | _ => .error (.noItemAssignment "object")

end Heap

end Dotpath

import Dotpath.Graph.Entries

/-!
# Members

What a container holds when it is run through from its start, how long it says it is, and the
pairs of a mapping.  A sequence of the user may claim a length other than the number of its members.
-/

namespace Dotpath

/-- The greatest length a container can have. -/
def maxLength : Nat := twoTo 63 - 1

/-- The value of a byte. -/
def byteValue (b : UInt8) : Value := .scalar (.int b.toNat)

/-- The member of an array at a position: a cell, or a row of the remaining dimensions. -/
def gridMember (a : Address) (offset : Nat) (shape : List Nat) (cells : List Value) (i : Nat) :
    Option Value :=
  match shape with
  | [] => none
  | [n] => if i < n then cells[offset + i]? else none
  | n :: inner => if i < n then some (.row a (offset + i * cellCount inner) inner) else none

/-- The members of an array. -/
def gridMembers (a : Address) (offset : Nat) (shape : List Nat) (cells : List Value) : List Value :=
  (List.range (shape.headD 0)).filterMap (gridMember a offset shape cells)

namespace Heap

/-- The pairs of a mapping. -/
def mappingEntries? (h : Heap) : Node → Option Entries
  | .dict _ es => some es
  | .proxy d | .userMap d _ _ | .seqMap d => some (h.entries d)
  | .chain ds => some (Entries.chained (ds.map h.entries))
  | _ => none

/-- The members that a view shows. -/
def viewMembers (h : Heap) (part : ViewPart) (d : Address) : List Value :=
  match part with
  | .keys => (h.entries d).map (·.1)
  | .values => (h.entries d).map (·.2)
  | .items => (h.entries d).map fun e => .tuple [e.1, e.2]

/-- The members of a node.  Those of a mapping are its keys. -/
def nodeMembers (h : Heap) (a : Address) : Node → List Value
  | .list items | .deque items | .set items | .userSeq items _ _ _ => items
  | .view p d => h.viewMembers p d
  | .byteArray bs => bs.map byteValue
  | .cells _ items => items.map .scalar
  | .grid _ shape items _ => gridMembers a 0 shape items
  | .object .. => []
  | n => ((h.mappingEntries? n).getD []).map (·.1)

/-- The cells of the array at an address. -/
def gridCells (h : Heap) (a : Address) : List Value :=
  match h.get? a with
  | some (.grid _ _ items _) => items
  | _ => []

/-- The member of a value at a position. -/
def member? (h : Heap) (v : Value) (i : Nat) : Option Value :=
  match v with
  | .range start stop step =>
    if i < rangeSize start stop step then some (.scalar (.int (rangeItem start step i))) else none
  | .tuple items | .named _ _ items | .frozenSet items => items[i]?
  | .row a offset shape => gridMember a offset shape (h.gridCells a) i
  | .ref a => match h.get? a with
    | some (.grid _ shape items _) => gridMember a 0 shape items i
    | some n => (h.nodeMembers a n)[i]?
    | none => none
  | .scalar (.text s) => s.toList[i]?.map fun c => .scalar (.text (String.singleton c))
  | .scalar (.bytes bs) | .scalar (.memory bs) => bs[i]?.map byteValue
  | .scalar _ => none

/-- What keeps the member at a position from being found by running through a value up to it. -/
def interruption? (h : Heap) (v : Value) (i : Nat) : Option Fault :=
  match v with
  | .ref a => match h.get? a with
    | some (.userSeq items _ _ (some (n, f))) => if n ≤ i && n ≤ items.length then some f else none
    | _ => none
  | _ => none

/-- The length that a node says it has. -/
def nodeLength (h : Heap) (a : Address) (n : Node) : Except Fault Nat :=
  match n with
  | .userSeq items claimed _ _ =>
    match claimed with
    | none => .ok items.length
    | some n => if n < 0 then .error .negativeLength
      else if n > maxLength then .error .lengthOverflow else .ok n.toNat
  | .grid _ [] _ _ => .error .unsized
  | .grid _ (n :: _) _ _ => .ok n
  | .object c _ => .error (.noLength c)
  | n => .ok (h.nodeMembers a n).length

/-- The length that a value says it has. -/
def length (h : Heap) : Value → Except Fault Nat
  | .range start stop step =>
    let n := rangeSize start stop step
    if n > maxLength then .error .lengthOverflow else .ok n
  | .tuple items | .named _ _ items | .frozenSet items => .ok items.length
  | .row _ _ [] => .error .unsized
  | .row _ _ (n :: _) => .ok n
  | .ref a => match h.get? a with
    | some n => h.nodeLength a n
    | none => .error (.noLength "object")
  | .scalar s => match s.plain with
    | .text t => .ok t.length
    | .bytes bs | .memory bs => .ok bs.length
    | _ => .error (.noLength (h.faultTypeName (.scalar s)))

end Heap

end Dotpath

import Dotpath.Array.Plain
import Dotpath.Array.Store
import Dotpath.Graph.Lookup

/-!
# Assigning items

Assignment to an item of a container, by position for sequences and arrays and by key for mappings.
A container that cannot be changed reports a fault, and so may a container of the user.
-/

namespace Dotpath

namespace Heap

/-- Assigns the item at a position.  A sequence never grows. -/
def setItem (h : Heap) (container : Value) (i : Nat) (v : Value) : Except Fault Heap :=
  let fixed : Except Fault Heap := .error (.noItemAssignment (h.faultTypeName container))
  match container with
  | .row a offset shape => h.storeMember a offset shape i v
  | .ref a =>
    match h.get? a with
    | some (.list items) =>
      if i < items.length then .ok (h.set a (.list (items.set i v))) else .error .listIndex
    | some (.deque items) =>
      if i < items.length then .ok (h.set a (.deque (items.set i v))) else .error .dequeIndex
    | some (.userSeq items claimed refusal break?) =>
      match refusal with
      | some kind => .error (.refused kind)
      | none =>
        if i < items.length then .ok (h.set a (.userSeq (items.set i v) claimed refusal break?))
        else .error .listIndex
    | some (.byteArray bs) => do
      let b ← byteCell (h.faultTypeName v) v
      if i < bs.length then .ok (h.set a (.byteArray (bs.set i b))) else .error .listIndex
    | some (.cells code items) => do
      let c ← plainCell code (h.faultTypeName v) v
      if i < items.length then .ok (h.set a (.cells code (items.set i c))) else .error .listIndex
    | some (.grid _ shape _ _) => h.storeMember a 0 shape i v
    | _ => fixed
  | .scalar (.memory _) => .error (.element .typeError "cannot modify read-only memory")
  | _ => fixed

/-- Assigns the value of a key of the mapping at an address, through at most so many wrappers.  The
key is added at the end if it is new. -/
def setKeyWith : (fuel : Nat) → Heap → Address → (k v : Value) → Except Fault Heap
  | 0, _, _, _, _ => .error endlessText
  | fuel + 1, h, a, k, v =>
    match h.get? a with
    | some (.dict ..) => .ok (h.putEntry a k v)
    | some (.chain []) => .error (.raised .indexError [.scalar (.text "list index out of range")])
    | some (.chain (d :: _)) => setKeyWith fuel h d k v
    | some (.userMap d refusal _) =>
      match refusal with
      | some kind => .error (.refused kind)
      | none => setKeyWith fuel h d k v
    | _ => .error (.noItemAssignment (h.faultTypeName (.ref a)))

/-- Assigns the value of a key, which is added at the end if it is new. -/
def setKey (h : Heap) (container k v : Value) : Except Fault Heap :=
  match container with
  | .ref a => setKeyWith (h.nodes.size + 1) h a k v
  | _ => .error (.noItemAssignment (h.faultTypeName container))

/-- The pairs of a mapping. -/
def pairs? (h : Heap) : Value → Option Entries
  | .ref a => (h.get? a).bind h.mappingEntries?
  | _ => none

/-- Assigns an item by position, taking the position as a key where the container is a mapping. -/
def setOutput (h : Heap) (container : Value) (i : Nat) (v : Value) : Except Fault Heap :=
  if (h.pairs? container).isSome then h.setKey container (.scalar (.int i)) v
  else h.setItem container i v

end Heap

end Dotpath

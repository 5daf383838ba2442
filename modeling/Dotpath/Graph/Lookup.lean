import Dotpath.Graph.Entries

/-!
# Looking keys up

A look-up in a dictionary finds the value that is stored under a key, and changes nothing.  A wrapper
takes the item out of what it stands over instead.  There a dictionary with a default brings in a
new list for a missing key and keeps it, and a mapping of the user may raise a fault.  So a look-up
reports what it finds together with the heap that it leaves.
-/

namespace Dotpath

namespace Heap

/-- Assigns a key of the dictionary at an address. -/
def putEntry (h : Heap) (a : Address) (k v : Value) : Heap :=
  match h.get? a with
  | some (.dict type es) => h.set a (.dict type (Entries.put es k v))
  | _ => h

/-- The heap with a new list under a key of the dictionary at an address. -/
def addDefault (h : Heap) (d : Address) (k : Value) : Heap :=
  let (h', a) := h.alloc (.list [])
  h'.putEntry d k (.ref a)

/-- Asks several mappings one after the other, up to the first answer that is not `no`. -/
def askInOrder {α : Type} [BEq α] (no : α) (ask : Heap → Address → Except Fault α × Heap) :
    Heap → List Address → Except Fault α × Heap
  | h, [] => (.ok no, h)
  | h, a :: as =>
    match ask h a with
    | (.ok answer, h') => if answer == no then askInOrder no ask h' as else (.ok answer, h')
    | (.error f, h') => (.error f, h')

/-- The fault of a value that has no items. -/
def notMapping (h : Heap) (a : Address) : Fault :=
  .noAttribute (h.faultTypeName (.ref a)) "get"

/-- The item that is taken out of a mapping under a key, if it has the key or a default. -/
def itemWith : (fuel : Nat) → Heap → Address → Value → Except Fault (Option Value) × Heap
  | 0, h, _, _ => (.error endlessText, h)
  | fuel + 1, h, a, k =>
    match h.get? a with
    | some (.dict type es) =>
      match Entries.find? es k with
      | some v => (.ok (some v), h)
      | none =>
        if type = .defaulting then (.ok (some (.ref h.nodes.size)), h.addDefault a k)
        else (.ok none, h)
    | some (.proxy d) | some (.seqMap d) => itemWith fuel h d k
    | some (.userMap d _ barred) =>
      match barred.find? fun e => (Value.scalar e.1).equal k with
      | some (_, f) => (if f.kind.isA .keyError then .ok none else .error f, h)
      | none => itemWith fuel h d k
    | some (.chain ds) => askInOrder none (fun h d => itemWith fuel h d k) h ds
    | _ => (.error (h.notMapping a), h)

/-- Whether a mapping says that it has a key.  A mapping of the user tries to take the item out. -/
def containsWith : (fuel : Nat) → Heap → Address → Value → Except Fault Bool × Heap
  | 0, h, _, _ => (.error endlessText, h)
  | fuel + 1, h, a, k =>
    match h.get? a with
    | some (.dict _ es) => (.ok (Entries.contains es k), h)
    | some (.proxy d) => containsWith fuel h d k
    | some (.seqMap d) => (.ok (Entries.contains (h.entries d) k), h)
    | some (.userMap ..) =>
      let (item, h') := itemWith (fuel + 1) h a k
      (item.map Option.isSome, h')
    | some (.chain ds) => askInOrder false (fun h d => containsWith fuel h d k) h ds
    | _ => (.error (h.notMapping a), h)

/-- What a mapping gives for a key: null if it does not have the key. -/
def getWith : (fuel : Nat) → Heap → Address → Value → Except Fault Value × Heap
  | 0, h, _, _ => (.error endlessText, h)
  | fuel + 1, h, a, k =>
    let item (h : Heap) : Except Fault Value × Heap :=
      let (item, h') := itemWith (fuel + 1) h a k
      (item.map fun v => v.getD (.scalar .null), h')
    match h.get? a with
    | some (.dict _ es) => (.ok ((Entries.find? es k).getD (.scalar .null)), h)
    | some (.proxy d) => getWith fuel h d k
    | some (.userMap ..) | some (.seqMap _) => item h
    | some (.chain _) =>
      match containsWith (fuel + 1) h a k with
      | (.ok true, h') => item h'
      | (.ok false, h') => (.ok (.scalar .null), h')
      | (.error f, h') => (.error f, h')
    | _ => (.error (h.notMapping a), h)

/-- What a look-up finds in a mapping: the value under a key, or nothing if the mapping gives null
and says that it does not have the key. -/
def lookUp (h : Heap) (v k : Value) : Except Fault (Option Value) × Heap :=
  match v with
  | .ref a =>
    match getWith (h.nodes.size + 1) h a k with
    | (.ok w, h') =>
      if w.isNull then
        let (found, h'') := containsWith (h.nodes.size + 1) h' a k
        (found.map fun b => if b then some w else none, h'')
      else (.ok (some w), h')
    | (.error f, h') => (.error f, h')
  | _ => (.error (.noAttribute (h.faultTypeName v) "get"), h)

end Heap

end Dotpath

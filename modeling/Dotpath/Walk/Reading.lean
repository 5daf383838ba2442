import Dotpath.Graph.Access
import Dotpath.Graph.Items
import Dotpath.Walk.Key
import Dotpath.Walk.Kind

/-!
# Reading along a path

A step consumes one segment: an index of a sequence or an array, a key of a mapping, or the name of
a property.  A walk takes a step for every segment and stops at the first failure.

A look-up in a mapping may bring a default into a dictionary, so a step and a walk leave a heap
(`Heap.leftByStep`, `Heap.leftByWalk`), and the next step is taken in the heap that the last one
left.
-/

namespace Dotpath

/-- The index that a segment denotes: ASCII digits alone.  Too many digits are a fault. -/
def parseIndex (s : Segment) : Except Fault (Option Nat) :=
  match s with
  | none => .ok none
  | some t =>
    let ds := t.toList
    if ds.isEmpty || !ds.all Text.isDigit then .ok none
    else if ds.length > maxDigits then .error (.tooManyDigits ds.length)
    else .ok (some (Text.digitsValue ds))

/-- An array's element as a value of its own. -/
def plainElement : Value → Value
  | .scalar s => .scalar s.plain
  | v => v

/-- The index that the segment of a path denotes. -/
def indexAt (path : Path) (i : Int) : Outcome Nat := do
  match ← Outcome.ofExcept (path.segment i >>= parseIndex) with
  | some n => return n
  | none => failAt .indexExpected path i none

namespace Heap

/-- The member of a container that the segment of a path denotes. -/
def memberAt (h : Heap) (v : Value) (path : Path) (i : Int) : Outcome Value := do
  let n ← indexAt path i
  let size ← Outcome.ofExcept (h.length v)
  match (if n < size then h.interruption? v n else none) with
  | some f => .escape f
  | none =>
    match (if n < size then h.member? v n else none) with
    | some w => return w
    | none => failAt .indexOutOfBounds path i none

/-- A step into a mapping. -/
def entryAt (h : Heap) (keys : Option Deserializer) (v : Value) (path : Path) (i : Int) :
    Outcome Value := do
  let k ← mapKey keys path i
  match ← Outcome.ofExcept (h.lookUp v k).1 with
  | some w => return w
  | none => failAt .noSuchKey path i none

/-- The heap that a step into a mapping leaves. -/
def leftByEntry (h : Heap) (keys : Option Deserializer) (v : Value) (path : Path) (i : Int) : Heap :=
  match mapKey keys path i with
  | .done k => (h.lookUp v k).2
  | .fail _ | .escape _ => h

/-- The failure of a walk that ends at a value without structure. -/
def terminalAt {α : Type} (σ : Schema) (h : Heap) (v : Value) (path : Path) (i : Int) :
    Outcome α := do
  let shown ← Outcome.ofExcept (h.format σ v)
  failAt (.terminalValue (h.typeName v) shown) path i none

/-- The failure that a fault of a property leads to, by the kind of the fault.  A fault that cannot be
shown is itself a fault, which goes through to the caller. -/
def propertyFault {α : Type} (σ : Schema) (h : Heap) (v : Value) (path : Path) (i : Int)
    (f : Fault) : Outcome α :=
  match f.kind with
  | .noAccessibleProperties => h.terminalAt σ v path i
  | .noSuchProperty =>
    failAt (.noSuchProperty (qualifiedName (h.typeName v))) path i (some f.kind)
  | _ => match f.quoted? with
    | some shown => failAt (.unexpected shown) path i (some f.kind)
    | none => .escape .unprintableInteger

/-- The name of a property that the segment of a path denotes. -/
def nameAt (path : Path) (i : Int) : Outcome String := do
  match ← Outcome.ofExcept (path.segment i) with
  | some name => if name.isEmpty then failAt .emptySegment path i none else return name
  | none => failAt .emptySegment path i none

/-- A step into an object. -/
def propertyAt (σ : Schema) (h : Heap) (v : Value) (path : Path) (i : Int) : Outcome Value := do
  let name ← nameAt path i
  match h.readProperty σ v (some name) with
  | .ok w => return w
  | .error f => h.propertyFault σ v path i f

/-- A step into a container of a given kind. -/
def stepInto (σ : Schema) (h : Heap) (keys : Option Deserializer) (kind : ContainerKind)
    (v : Value) (path : Path) (i : Int) : Outcome Value :=
  match kind with
  | .sequence => h.memberAt v path i
  | .array | .primitiveArray => do return plainElement (← h.memberAt v path i)
  | .mapping => h.entryAt keys v path i
  | .object => h.propertyAt σ v path i

/-- A step. -/
def step (σ : Schema) (h : Heap) (keys : Option Deserializer) (v : Value) (path : Path) (i : Int) :
    Outcome Value :=
  h.stepInto σ keys (h.classify v) v path i

/-- The heap that a step into a container of a given kind leaves. -/
def leftByStepInto (h : Heap) (keys : Option Deserializer) (kind : ContainerKind) (v : Value)
    (path : Path) (i : Int) : Heap :=
  match kind with
  | .mapping => h.leftByEntry keys v path i
  | _ => h

/-- The heap that a step leaves. -/
def leftByStep (h : Heap) (keys : Option Deserializer) (v : Value) (path : Path) (i : Int) : Heap :=
  h.leftByStepInto keys (h.classify v) v path i

/-- The value at the end of a path, from the segment at `i` onwards. -/
def walk (σ : Schema) (h : Heap) (keys : Option Deserializer) (v : Value) (path : Path) (i : Int) :
    Outcome Value :=
  if i < path.size then
    if v.isNull then failAt .nullValue path i none
    else match h.step σ keys v path i with
      | .done w => walk σ (h.leftByStep keys v path i) keys w path (i + 1)
      | .fail f => .fail f
      | .escape f => .escape f
  else .done v
termination_by (path.size - i).toNat

/-- The heap that a walk leaves. -/
def leftByWalk (σ : Schema) (h : Heap) (keys : Option Deserializer) (v : Value) (path : Path)
    (i : Int) : Heap :=
  if i < path.size then
    if v.isNull then h
    else match h.step σ keys v path i with
      | .done w => leftByWalk σ (h.leftByStep keys v path i) keys w path (i + 1)
      | .fail _ | .escape _ => h.leftByStep keys v path i
  else h
termination_by (path.size - i).toNat

theorem walk_of_le {σ : Schema} {h : Heap} {keys : Option Deserializer} {v : Value} {path : Path}
    {i : Int} (hi : (path.size : Int) ≤ i) : h.walk σ keys v path i = .done v := by
  rw [walk, if_neg (by omega)]

theorem walk_of_isNull {σ : Schema} {h : Heap} {keys : Option Deserializer} {v : Value}
    {path : Path} {i : Int} (hi : i < path.size) (hv : v.isNull = true) :
    h.walk σ keys v path i = failAt .nullValue path i none := by
  rw [walk, if_pos hi, if_pos hv]

theorem walk_of_lt {σ : Schema} {h : Heap} {keys : Option Deserializer} {v : Value} {path : Path}
    {i : Int} (hi : i < path.size) (hv : v.isNull = false) :
    h.walk σ keys v path i =
      h.step σ keys v path i >>= fun w =>
        (h.leftByStep keys v path i).walk σ keys w path (i + 1) := by
  rw [walk, if_pos hi, if_neg (by simp [hv])]
  cases h.step σ keys v path i <;> rfl

theorem leftByWalk_of_le {σ : Schema} {h : Heap} {keys : Option Deserializer} {v : Value}
    {path : Path} {i : Int} (hi : (path.size : Int) ≤ i) : h.leftByWalk σ keys v path i = h := by
  rw [leftByWalk, if_neg (by omega)]

theorem leftByWalk_of_isNull {σ : Schema} {h : Heap} {keys : Option Deserializer} {v : Value}
    {path : Path} {i : Int} (hv : v.isNull = true) : h.leftByWalk σ keys v path i = h := by
  rw [leftByWalk, if_pos hv, ite_self]

theorem leftByWalk_of_done {σ : Schema} {h : Heap} {keys : Option Deserializer} {v w : Value}
    {path : Path} {i : Int} (hi : i < path.size) (hv : v.isNull = false)
    (hw : h.step σ keys v path i = .done w) :
    h.leftByWalk σ keys v path i =
      (h.leftByStep keys v path i).leftByWalk σ keys w path (i + 1) := by
  rw [leftByWalk, if_pos hi, if_neg (by simp [hv]), hw]

theorem leftByWalk_of_not_done {σ : Schema} {h : Heap} {keys : Option Deserializer} {v : Value}
    {path : Path} {i : Int} (hi : i < path.size) (hv : v.isNull = false)
    (hw : ∀ w, h.step σ keys v path i ≠ .done w) :
    h.leftByWalk σ keys v path i = h.leftByStep keys v path i := by
  rw [leftByWalk, if_pos hi, if_neg (by simp [hv])]
  cases hs : h.step σ keys v path i with
  | done w => exact absurd hs (hw w)
  | fail | escape => rfl

/-- The containers that a walk steps into, with the index of the segment it consumes there. -/
def trail (σ : Schema) (h : Heap) (keys : Option Deserializer) (v : Value) (path : Path) (i : Int) :
    List (Value × Int) :=
  if i < path.size then
    if v.isNull then []
    else (v, i) :: match h.step σ keys v path i with
      | .done w => trail σ (h.leftByStep keys v path i) keys w path (i + 1)
      | .fail _ | .escape _ => []
  else []
termination_by (path.size - i).toNat

end Heap

end Dotpath

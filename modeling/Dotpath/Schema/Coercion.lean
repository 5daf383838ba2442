import Dotpath.Graph.Members
import Dotpath.Schema.Assignable
import Dotpath.Number.Reading

/-!
# Coerced values

A model that checks assignments first turns the value into one of the field's type: a narrower
number into a wider one, a text into the number it denotes, a moment at midnight into a date.  Lists
and other containers are copied, so a coerced value may need new nodes on the heap.
-/

namespace Dotpath

/-- A scalar as an integer, if nothing is lost. -/
def Scalar.toInteger? : Scalar → Option Int
  | .int n => some n
  | .bool b => some (if b then 1 else 0)
  | .float x => x.ratio?.bind fun (n, d) => if d = 1 then some n else none
  | .text s => match readInteger s.toList with
    | .ok n => some n
    | .error _ => none
  | .decimal s => match decimalQuantity s with
    | .ratio n 1 => some n
    | _ => none
  | .machine _ (.int n) => some n
  | .machine _ (.float x) => x.ratio?.bind fun (n, d) => if d = 1 then some n else none
  | _ => none

/-- The number nearest to a quantity. -/
def Quantity.toBinary64? : Quantity → Option Binary64
  | .ratio n d =>
    let x := Binary64.ofRatio (n < 0) n.natAbs d
    if x.ratio?.isSome then some x else none
  | .infinite negative => some (Binary64.infinity negative)
  | .undefined => some Binary64.nan

/-- A scalar as a floating-point number. -/
def Scalar.toBinary64? : Scalar → Option Binary64
  | .float x | .machine _ (.float x) => some x
  | .text s => Binary64.read? s.toList
  | .complex .. | .machine _ (.complex ..) => none
  | s => s.quantity?.bind fun (q, _) => q.toBinary64?

/-- The words for truth values. -/
def truthWord? (s : String) : Option Bool :=
  let w := String.ofList (Text.lower s.toList)
  if ["1", "true", "t", "yes", "y", "on"].contains w then some true
  else if ["0", "false", "f", "no", "n", "off"].contains w then some false
  else none

/-- A scalar as a truth value. -/
def Scalar.toBool? : Scalar → Option Bool
  | .bool b | .machine _ (.bool b) => some b
  | .int 0 => some false
  | .int 1 => some true
  | .float x => match x.quantity with
    | .ratio 0 _ => some false
    | .ratio 1 1 => some true
    | _ => none
  | .text s => truthWord? s
  | _ => none

/-- A scalar as one of a built-in class. -/
def Scalar.coerce? (type : String) (s : Scalar) : Option Scalar :=
  match type with
  | "int" => s.toInteger?.map .int
  | "float" => s.toBinary64?.map .float
  | "complex" => match s.plain with
    | .complex re im => some (.complex re im)
    | s => s.toBinary64?.map fun x => .complex x Binary64.zero
  | "bool" => s.toBool?.map .bool
  | "str" => match s.plain with
    | .text t => some (.text t)
    | .bytes bs => (String.fromUTF8? ⟨bs.toArray⟩).map .text
    | _ => none
  | "bytes" => match s.plain with
    | .bytes bs => some (.bytes bs)
    | .text t => some (.bytes t.toUTF8.toList)
    | _ => none
  | "date" => match s with
    | .date d => some (.date d)
    | .dateTime d t => if t.seconds = 0 && t.microsecond = 0 then some (.date d) else none
    | .text t => (Date.read? t.toList).map .date
    | _ => none
  | "datetime" => match s with
    | .dateTime d t => some (.dateTime d t)
    | .date d => some (.dateTime d ⟨0, 0, 0, 0, none⟩)
    | .text t => (readDateTime? t.toList).map fun (d, t) => .dateTime d t
    | _ => none
  | "Decimal" => match s with
    | .decimal t => some (.decimal t)
    | .int n => some (.decimal (toString n))
    | .float x => some (.decimal x.text)
    | _ => none
  | "Color" => match s with
    | .colour m => some (.colour m)
    | .int 1 => some (.colour "RED")
    | .int 2 => some (.colour "GREEN")
    | _ => none
  | "NoneType" => if s = .null then some .null else none
  | _ => none

/-- The built-in classes of scalars, whose values are coerced. -/
def scalarClasses : List String :=
  ["int", "float", "complex", "bool", "str", "bytes", "date", "datetime", "Decimal", "Color",
    "NoneType"]

/-- The limits of a field that hold for numbers and for lengths. -/
def FieldDef.admits (f : FieldDef) (h : Heap) (v : Value) : Bool :=
  let below (a b : Scalar) : Bool := match a.quantity?, b.quantity? with
    | some (.ratio n d, _), some (.ratio m e, _) => n * e < m * d
    | some (.infinite negative, _), some (.ratio .., _) => negative
    | some (.ratio .., _), some (.infinite negative, _) => !negative
    | _, _ => false
  let number := match v with
    | .scalar s => (f.atLeast.all fun m => !below s m) && f.atMost.all fun m => !below m s
    | _ => true
  let size := match h.length v with
    | .ok n => (f.minLength.all (· ≤ n)) && f.maxLength.all (n ≤ ·)
    | .error _ => true
  number && size

namespace Heap

/-- The members of a value that can be copied into a list. -/
def listable? (h : Heap) : Value → Option (List Value)
  | .tuple items | .named _ _ items | .frozenSet items => some items
  | .ref a => match h.get? a with
    | some (.list items) | some (.deque items) | some (.set items) => some items
    | some (.view p d) => some (h.viewMembers p d)
    | _ => none
  | _ => none

/-- The members of a value that can be copied into a set. -/
def settable? (h : Heap) (v : Value) : Option (List Value) :=
  (h.listable? v).map fun items => (Entries.ofList (items.map fun i => (i, i))).map (·.1)

/-- Runs a coercion through several values, from the first on. -/
def coerceAll (f : Heap → Value → Option (Value × Heap)) (h : Heap) :
    List Value → Option (List Value × Heap)
  | [] => some ([], h)
  | v :: vs => do
    let (w, h) ← f h v
    let (ws, h) ← coerceAll f h vs
    return (w :: ws, h)

/-- A new node as a value. -/
def allocValue (h : Heap) (n : Node) : Value × Heap := let (h, a) := h.alloc n; (.ref a, h)

mutual

/-- The value as one of the annotated type, on a heap with room for the copies. -/
def coerce? (σ : Schema) : Annotation → Heap → Value → Option (Value × Heap)
  | .any, h, v => some (v, h)
  | .remarked a, h, v => coerce? σ a h v
  | .forward t, h, v | .named t, h, v =>
    if scalarClasses.contains t then
      match v with
      | .scalar s => (s.coerce? t).map fun s => (.scalar s, h)
      | _ => none
    else match t with
      | "list" => (h.listable? v).map fun items => h.allocValue (.list items)
      | "set" => (h.settable? v).map fun items => h.allocValue (.set items)
      | "frozenset" => (h.settable? v).map fun items => (.frozenSet items, h)
      | "tuple" => (h.listable? v).map fun items => (.tuple items, h)
      | "dict" => (h.dictEntries? v).map fun es => h.allocValue (.dict .plain es)
      | t => if h.isInstance σ v t then some (v, h) else none
  | .null, h, v => if v == .scalar .null then some (v, h) else none
  | .union members _, h, v =>
    match coerceStrict σ members h v with
    | some r => some r
    | none => coerceSome σ members h v
  | .list a, h, v => do
    let (items, h) ← coerceAll (coerce? σ a) h (← h.listable? v)
    return h.allocValue (.list items)
  | .set a, h, v => do
    let (items, h) ← coerceAll (coerce? σ a) h (← h.settable? v)
    return h.allocValue (.set items)
  | .dict k a, h, v => do
    let es ← h.dictEntries? v
    let (keys, h) ← coerceAll (coerce? σ k) h (es.map (·.1))
    let (values, h) ← coerceAll (coerce? σ a) h (es.map (·.2))
    return h.allocValue (.dict .plain (Entries.ofList (keys.zip values)))
  | .tuple as, h, v => do
    let (items, h) ← coerceEach σ as h (← h.listable? v)
    return (.tuple items, h)
  | .tupleOf a, h, v => do
    let (items, h) ← coerceAll (coerce? σ a) h (← h.listable? v)
    return (.tuple items, h)
  | .literal values, h, v =>
    (values.find? fun l => (Value.scalar l).equal v).map fun l => (.scalar l, h)

/-- The value as one of the first annotated type that accepts it strictly. -/
def coerceStrict (σ : Schema) : List Annotation → Heap → Value → Option (Value × Heap)
  | [], _, _ => none
  | a :: as, h, v =>
    if h.conforms σ a v then
      match coerce? σ a h v with
      | some (w, h') => if w == v then some (w, h') else
        match coerceStrict σ as h v with
        | some r => some r
        | none => some (w, h')
      | none => coerceStrict σ as h v
    else coerceStrict σ as h v

/-- The value as one of the first annotated type that it can be turned into. -/
def coerceSome (σ : Schema) : List Annotation → Heap → Value → Option (Value × Heap)
  | [], _, _ => none
  | a :: as, h, v =>
    match coerce? σ a h v with
    | some r => some r
    | none => coerceSome σ as h v

/-- The members of a tuple, each as one of its own annotated type. -/
def coerceEach (σ : Schema) : List Annotation → Heap → List Value →
    Option (List Value × Heap)
  | [], h, [] => some ([], h)
  | a :: as, h, v :: vs => do
    let (w, h) ← coerce? σ a h v
    let (ws, h) ← coerceEach σ as h vs
    return (w :: ws, h)
  | _, _, _ => none

end

end Heap

end Dotpath

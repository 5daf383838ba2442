import Dotpath.Path.Given
import Dotpath.Walk.Writing

/-!
# Walkers

A walker reads and writes a fixed list of paths.  A strict walker raises the failure of a path that
leads nowhere; a lenient one reads null or does not write, and leaves a note.  A fault is let out by
both.  But a write treats the failure of another walker that comes out of the walk to the parent
like one of its own.

An operation reports its result, the heap it leaves, the notes, and the segments for which the key
deserializer was asked.
-/

namespace Dotpath

/-- What an operation of a walker raises or lets out. -/
inductive Raised where
  | failure (f : Failure)
  /-- The failure of another walker, raised again. -/
  | relayed (code : ErrorCode) (f : Fault)
  | fault (f : Fault)
  deriving Repr, Inhabited

namespace Outcome

/-- The outcome as a strict or a lenient walker hands it on; `neutral` stands for a failure. -/
def settle {α : Type} (strict : Bool) (neutral : α) : Outcome α → Except Raised α
  | done a => .ok a
  | fail f => if strict then .error (.failure f) else .ok neutral
  | escape f => .error (.fault f)

/-- The notes that a walker leaves about an outcome. -/
def notes {α : Type} (strict : Bool) : Outcome α → List String
  | fail f => if strict then [] else [f.note]
  | _ => []

/-- The outcome with another result. -/
def map {α β : Type} (f : α → β) : Outcome α → Outcome β
  | done a => done (f a)
  | fail e => fail e
  | escape e => escape e

end Outcome

/-- The report of an operation. -/
structure Report (α : Type) where
  result : Except Raised α
  heap : Heap
  notes : List String := []
  consulted : List (Path × Int) := []

namespace Report

/-- Goes on with the result on the heap that was left, unless something was raised. -/
def andThen {α β : Type} (r : Report α) (f : α → Heap → Report β) : Report β :=
  match r.result with
  | .error e => ⟨.error e, r.heap, r.notes, r.consulted⟩
  | .ok a =>
    let s := f a r.heap
    ⟨s.result, s.heap, r.notes ++ s.notes, r.consulted ++ s.consulted⟩

/-- The report of a result that changes nothing. -/
def pure {α : Type} (h : Heap) (a : α) : Report α := ⟨.ok a, h, [], []⟩

/-- The report of a fault. -/
def raise {α : Type} (h : Heap) (f : Fault) : Report α := ⟨.error (.fault f), h, [], []⟩

end Report

/-- A list of paths with the policy for failures and the deserializer for mapping keys. -/
structure Walker where
  paths : List Path
  strict : Bool := false
  keys : Option Deserializer := none

namespace Walker

/-- A walker for given paths: there is at least one, and with a deserializer none is empty. -/
def ofPaths (paths : List Given) (strict : Bool) (keys : Option Deserializer) :
    Except Fault Walker := do
  if paths.isEmpty then throw .noPaths
  let checked ← paths.mapM Given.walked
  if keys.isSome && checked.any Path.isEmpty then throw .emptyKeyedPath
  return ⟨checked, strict, keys⟩

/-- A walker for the paths in a collection. -/
def ofCollection (paths : Given) (strict : Bool) (keys : Option Deserializer) :
    Except Fault Walker :=
  match paths with
  | .null => .error (.missing "paths")
  | .items _ members => ofPaths members strict keys
  | .text s => ofPaths (s.toList.map fun c => .text (String.singleton c)) strict keys
  | .path p => ofPaths (p.segments.map fun s => match s with
    | some t => .text t
    | none => .null) strict keys
  | .other t => .error (.notIterable t)

/-- A walker as it shows itself. -/
def quoted (w : Walker) : String :=
  "PathWalker(" ++ Text.commas (w.paths.map fun p => Text.quoted p.print) ++
    ", suppress_exceptions=" ++ boolText (!w.strict) ++ ")"

/-- The segments for which a walk asks the deserializer. -/
def consultedBy (w : Walker) (σ : Schema) (h : Heap) (v : Value) (p : Path) (i : Int) :
    List (Path × Int) :=
  if w.keys.isNone then []
  else ((h.trail σ w.keys v p i).filter fun (c, _) => h.classify c == .mapping).map
    fun (_, i) => (p, i)

/-- Reads one path, from the segment at `i` onwards. -/
def readFrom (w : Walker) (σ : Schema) (h : Heap) (host : Value) (p : Path) (i : Int) :
    Report Value :=
  let o := h.walk σ w.keys host p i
  ⟨o.settle w.strict (.scalar .null), h.leftByWalk σ w.keys host p i, o.notes w.strict,
    w.consultedBy σ h host p i⟩

/-- Reads one path. -/
def readPath (w : Walker) (σ : Schema) (h : Heap) (host : Value) (p : Path) : Report Value :=
  w.readFrom σ h host p 0

/-- The segments for which a write asks the deserializer. -/
def consultedWriting (w : Walker) (σ : Schema) (h : Heap) (host : Value) (p : Path) :
    List (Path × Int) :=
  let onWay := match p.parent? with
    | some parent => if p.size = 1 then [] else w.consultedBy σ h host parent 0
    | none => []
  match h.parentOf σ w.keys host p with
  | .done (target, _) =>
    if w.keys.isSome && !target.isNull && h.classify target == .mapping then
      onWay ++ [(p, p.lastIndex)]
    else onWay
  | _ => onWay

/-- Writes one path. -/
def writePath (w : Walker) (σ : Schema) (h : Heap) (host : Value) (p : Path) (v : Value) :
    Report Bool :=
  let o := h.write σ w.keys host p v
  let consulted := w.consultedWriting σ h host p
  match h.relayed? σ w.keys host p, o with
  | some (code, f), _ =>
    ⟨if w.strict then .error (.relayed code f) else .ok false, h.leftByParent σ w.keys host p,
      if w.strict then [] else ["Suppressed " ++ code.name ++ ": " ++ f.message], consulted⟩
  | none, .done h' => ⟨.ok true, h', [], consulted⟩
  | none, o =>
    ⟨(o.map fun _ => true).settle w.strict false, h.leftByWrite σ w.keys host p v,
      o.notes w.strict, consulted⟩

/-- The first path. -/
def firstPath (w : Walker) : Path := w.paths.headD Path.empty

/-- Reads the first path. -/
def read (w : Walker) (σ : Schema) (h : Heap) (host : Value) : Report Value :=
  w.readPath σ h host w.firstPath

/-- Reads several paths in order. -/
def readEach (w : Walker) (σ : Schema) (h : Heap) (host : Value) : List Path → Report (List Value)
  | [] => .pure h []
  | p :: ps => (w.readPath σ h host p).andThen fun v h =>
      (w.readEach σ h host ps).andThen fun vs h => .pure h (v :: vs)

/-- Reads all paths in order. -/
def readValues (w : Walker) (σ : Schema) (h : Heap) (host : Value) : Report (List Value) :=
  w.readEach σ h host w.paths

/-- Reads several paths and stores each value in a sequence, from position `i` on. -/
def storeEach (w : Walker) (σ : Schema) (h : Heap) (host output : Value) (i : Nat) :
    List Path → Report Unit
  | [] => .pure h ()
  | p :: ps => (w.readPath σ h host p).andThen fun v h =>
      match h.setOutput output i v with
      | .ok h => w.storeEach σ h host output (i + 1) ps
      | .error f => .raise h f

/-- Stores the value of each path at its position in a sequence, which must be long enough. -/
def readInto (w : Walker) (σ : Schema) (h : Heap) (host output : Value) : Report Unit :=
  match h.length output with
  | .error f => .raise h f
  | .ok n =>
    if n < w.paths.length then .raise h (.outputTooShort n w.paths.length)
    else w.storeEach σ h host output 0 w.paths

/-- Values by path, with a value assigned to a path: equal paths share one entry. -/
def putPath (entries : List (Path × Value)) (p : Path) (v : Value) : List (Path × Value) :=
  if entries.any (·.1 == p) then entries.map fun e => if e.1 == p then (e.1, v) else e
  else entries ++ [(p, v)]

/-- Stores the value of several paths under them in a map.  Beside the report stands the map that is
left, also where something was raised. -/
def storeByPath (w : Walker) (σ : Schema) (h : Heap) (host : Value)
    (entries : List (Path × Value)) : List Path → List (Path × Value) × Report Unit
  | [] => (entries, .pure h ())
  | p :: ps =>
    let r := w.readPath σ h host p
    match r.result with
    | .error _ => (entries, r.andThen fun _ h => .pure h ())
    | .ok v =>
      let (left, rest) := w.storeByPath σ r.heap host (putPath entries p v) ps
      (left, r.andThen fun _ _ => rest)

/-- The map that is left when the value of each path was to be stored under that path. -/
def mapLeft (w : Walker) (σ : Schema) (h : Heap) (host : Value) (entries : List (Path × Value)) :
    List (Path × Value) :=
  (w.storeByPath σ h host entries w.paths).1

/-- Stores the value of each path under that path, and returns the map. -/
def readIntoMap (w : Walker) (σ : Schema) (h : Heap) (host : Value)
    (entries : List (Path × Value)) : Report (List (Path × Value)) :=
  (w.storeByPath σ h host entries w.paths).2.andThen fun _ left =>
    .pure left (w.mapLeft σ h host entries)

/-- Writes the first path. -/
def write (w : Walker) (σ : Schema) (h : Heap) (host v : Value) : Report Bool :=
  w.writePath σ h host w.firstPath v

/-- Writes several values, each at its path, and counts those that were written. -/
def writeEach (w : Walker) (σ : Schema) (h : Heap) (host : Value) (count : Nat) :
    List (Path × Value) → Report Nat
  | [] => .pure h count
  | (p, v) :: rest => (w.writePath σ h host p v).andThen fun written h =>
      w.writeEach σ h host (if written then count + 1 else count) rest

/-- Writes a value at each path. -/
def writeValues (w : Walker) (σ : Schema) (h : Heap) (host : Value) (values : List Value) :
    Report Nat :=
  if values.length ≠ w.paths.length then .raise h (.valueCount values.length w.paths.length)
  else (w.writeEach σ h host 0 (w.paths.zip values)).andThen fun n h =>
    ⟨.ok n, h, ["Wrote " ++ toString n ++ " of " ++ toString w.paths.length ++ " values"], []⟩

end Walker

end Dotpath

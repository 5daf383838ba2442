import Dotpath.Document.Output
import Dotpath.Proofs.Document.Copy

/-!
# Texts of documents

The text of a document depends on the tree that it unfolds to alone, not on the nodes of the heap
(`Unfolds.document`).  `Tree.json` and `Tree.yaml` are the texts as functions of the tree.  The only
trouble is an integer with too many digits: without one (`Tree.prints`) there is a text.
-/

namespace Dotpath

/-- A result, or the fault of an integer without a text. -/
def provided {α : Type} (printed : Bool) (a : α) : Except Fault α :=
  if printed then .ok a else .error .unprintableInteger

theorem provided_bind {α β : Type} {f : α → Except Fault β} {p q : Bool} {a : α} {b : β}
    (hf : f a = provided q b) : provided p a >>= f = provided (p && q) b := by
  cases p with
  | true => exact hf
  | false => rfl

theorem provided_map {α β : Type} (f : α → β) (p : Bool) (a : α) :
    (provided p a).map f = provided p (f a) := by
  cases p <;> rfl

theorem provided_return {α β : Type} (f : α → β) (p : Bool) (a : α) :
    (provided p a >>= fun x => .ok (f x)) = provided p (f a) := by
  cases p <;> rfl

theorem mapM_provided {α β γ : Type} {f : α → Except Fault γ} {printed : β → Bool} {g : β → γ}
    {as : List α} {bs : List β}
    (h : List.Forall₂ (fun a b => f a = provided (printed b) (g b)) as bs) :
    as.mapM f = provided (bs.all printed) (bs.map g) := by
  induction h with
  | nil => rfl
  | cons hab _ ih =>
    rw [List.mapM_cons, hab, ih, List.all_cons]
    exact provided_bind (provided_return _ _ _)

namespace Tree

/-- The decimal text of an integer, or nothing if it is too long. -/
def decimal (n : Int) : String := (integerText? n).getD ""

namespace Atom

/-- Whether an atom has a text. -/
def prints : Atom → Bool
  | int n => (integerText? n).isSome
  | _ => true

/-- An atom in JSON. -/
def json : Atom → String
  | null => "null"
  | bool b => if b then "true" else "false"
  | int n => decimal n
  | float x => Json.floatText x
  | text s => Json.quoted s

/-- The tag of an atom in YAML. -/
def tag : Atom → Yaml.Tag
  | null => .null
  | bool _ => .bool
  | int _ => .int
  | float _ => .float
  | text _ => .str

/-- The text of an atom in YAML. -/
def yaml : Atom → String
  | null => "null"
  | bool b => if b then "true" else "false"
  | int n => decimal n
  | float x => Yaml.floatText x
  | text s => s

end Atom

/-- A key of a JSON object, which is a text. -/
def Key.name : Key → String
  | null => "null"
  | bool b => if b then "true" else "false"
  | int n => decimal n
  | text s => s

mutual

/-- Whether all atoms and keys have a text. -/
def prints : Tree → Bool
  | leaf a => a.prints
  | list ts => printsAll ts
  | dict fs => printsEntries fs

/-- Whether all of some trees can be written. -/
def printsAll : List Tree → Bool
  | [] => true
  | t :: ts => t.prints && printsAll ts

/-- Whether all keys and trees of some entries can. -/
def printsEntries : List (Key × Tree) → Bool
  | [] => true
  | (k, t) :: fs => (k.atom.prints && t.prints) && printsEntries fs

end

/-! ## JSON -/

mutual

/-- The JSON text of a tree at a depth. -/
def json (depth : Nat) : Tree → String
  | leaf a => a.json
  | list ts => Json.block depth "[" "]" (jsonItems (depth + 1) ts)
  | dict fs => Json.block depth "\x7b" "\x7d" (jsonEntries (depth + 1) fs)

/-- The JSON texts of the items of a list. -/
def jsonItems (depth : Nat) : List Tree → List String
  | [] => []
  | t :: ts => t.json depth :: jsonItems depth ts

/-- The JSON texts of the entries of a mapping. -/
def jsonEntries (depth : Nat) : List (Key × Tree) → List String
  | [] => []
  | (k, t) :: fs => (Json.quoted k.name ++ ": " ++ t.json depth) :: jsonEntries depth fs

end

/-! ## YAML -/

section

open Yaml

/-- Writes an atom. -/
def Atom.write (p : Pen) (indent : Option Nat) (place : Yaml.Place) (a : Atom) : Pen :=
  putScalar p (inner indent 2) (place == .root) false a.tag a.yaml

/-- Writes a key and its colon. -/
def Key.write (p : Pen) (column : Nat) (k : Key) : Pen :=
  let p := p.indentTo column
  if isSimpleKey k.atom.tag k.atom.yaml then
    (putScalar p (column + 2) false true k.atom.tag k.atom.yaml).sign ":" false
  else
    let p := k.atom.write (p.sign "?" true false true) (some column) .value
    (p.indentTo column).sign ":" true false true

mutual

/-- Writes a tree. -/
def write (p : Pen) (indent : Option Nat) (place : Yaml.Place) : Tree → Pen
  | leaf a => a.write p indent place
  | list ts =>
    if ts.isEmpty then (p.sign "[" true true).sign "]" false
    else
      writeItems p (if place == .value && !p.fresh then indent.getD 0 else inner indent 0) ts
  | dict fs =>
    if fs.isEmpty then (p.sign "\x7b" true true).sign "\x7d" false
    else writeEntries p (inner indent 0) fs

/-- Writes the items of a list, each after a dash. -/
def writeItems (p : Pen) (column : Nat) : List Tree → Pen
  | [] => p
  | t :: ts =>
    let p := (p.indentTo column).sign "-" true false true
    writeItems (t.write p (some column) .item) column ts

/-- Writes the entries of a mapping, each in a line of its own. -/
def writeEntries (p : Pen) (column : Nat) : List (Key × Tree) → Pen
  | [] => p
  | (k, t) :: fs => writeEntries (t.write (k.write p column) (some column) .value) column fs

end

/-- The YAML text of a tree. -/
def yaml (t : Tree) : String :=
  let p := (t.write {} none .root).indentTo 0
  let p := if p.unended then (p.sign "..." true).indentTo 0 else p
  p.text

end

/-- The text of a tree in one of the output formats. -/
def document (t : Tree) (format : String) : String :=
  if format = "yaml" then t.yaml else t.json 0

theorem prints_list (ts : List Tree) : (list ts).prints = ts.all prints := by
  rw [prints]
  induction ts with
  | nil => rfl
  | cons t ts ih => rw [printsAll, ih, List.all_cons]

theorem prints_dict (fs : List (Key × Tree)) :
    (dict fs).prints = fs.all fun f => f.1.atom.prints && f.2.prints := by
  rw [prints]
  induction fs with
  | nil => rfl
  | cons f fs ih => rw [printsEntries, ih, List.all_cons]

theorem json_list (depth : Nat) (ts : List Tree) :
    (list ts).json depth = Json.block depth "[" "]" (ts.map (json (depth + 1))) := by
  rw [json]
  congr 1
  induction ts with
  | nil => rfl
  | cons t ts ih => rw [jsonItems, ih, List.map_cons]

theorem json_dict (depth : Nat) (fs : List (Key × Tree)) :
    (dict fs).json depth = Json.block depth "\x7b" "\x7d"
      (fs.map fun f => Json.quoted f.1.name ++ ": " ++ f.2.json (depth + 1)) := by
  rw [json]
  congr 1
  induction fs with
  | nil => rfl
  | cons f fs ih => rw [jsonEntries, ih, List.map_cons]

theorem writeItems_eq_foldl (p : Yaml.Pen) (column : Nat) (ts : List Tree) :
    writeItems p column ts = ts.foldl (fun p t =>
      t.write ((p.indentTo column).sign "-" true false true) (some column) .item) p := by
  induction ts generalizing p with
  | nil => rfl
  | cons t ts ih => rw [writeItems, ih, List.foldl_cons]

theorem writeEntries_eq_foldl (p : Yaml.Pen) (column : Nat) (fs : List (Key × Tree)) :
    writeEntries p column fs =
      fs.foldl (fun p f => f.2.write (f.1.write p column) (some column) .value) p := by
  induction fs generalizing p with
  | nil => rfl
  | cons f fs ih => rw [writeEntries, ih, List.foldl_cons]

end Tree

theorem scalarText_int (n : Int) :
    scalarText (.int n) = provided (Tree.Atom.int n).prints (Tree.decimal n) := by
  rw [scalarText, Scalar.text?, Tree.Atom.prints, Tree.decimal]
  cases integerText? n <;> rfl

namespace Heap

variable {σ : Schema} {h : Heap} {a : Address} {v : Value} {t : Tree} {fuel depth : Nat}

/-! ## The way down -/

/-- Whether `around` may be the containers around a value that unfolds to a tree: different nodes,
whose trees are all higher. -/
structure Around (h : Heap) (around : List Address) (t : Tree) : Prop where
  nodup : around.Nodup
  lt_size : ∀ b ∈ around, b < h.nodes.size
  higher : ∀ b ∈ around, ∀ u, h.Unfolds (.ref b) u → t.height < u.height

theorem Around.nil (h : Heap) (t : Tree) : h.Around [] t :=
  ⟨.nil, fun _ hb => absurd hb List.not_mem_nil, fun _ hb => absurd hb List.not_mem_nil⟩

theorem Around.not_mem {around : List Address} (hround : h.Around around t)
    (hv : h.Unfolds (.ref a) t) : a ∉ around :=
  fun ha => Nat.lt_irrefl _ (hround.higher a ha t hv)

theorem Around.contains {around : List Address} (hround : h.Around around t)
    (hv : h.Unfolds (.ref a) t) : around.contains a = false :=
  Bool.eq_false_iff.2 fun ha => hround.not_mem hv (List.contains_iff_mem.1 ha)

theorem Around.cons {around : List Address} (hround : h.Around around t)
    (hv : h.Unfolds (.ref a) t) {u : Tree} (hu : u.height < t.height) :
    h.Around (a :: around) u where
  nodup := List.nodup_cons.2 ⟨hround.not_mem hv, hround.nodup⟩
  lt_size := by
    refine List.forall_mem_cons.2 ⟨?_, hround.lt_size⟩
    cases hv with
    | list hn | dict hn => exact lt_size_of_get? hn
  higher := fun b hb s hs => by
    rcases List.mem_cons.1 hb with rfl | hb
    · rwa [hs.unique hv]
    · exact Nat.lt_trans hu (hround.higher b hb s hs)

theorem Around.length_le {around : List Address} (hround : h.Around around t) :
    around.length ≤ h.nodes.size := by
  have hle := (hround.nodup.subperm fun b hb => List.mem_range.2 (hround.lt_size b hb)).length_le
  rwa [List.length_range] at hle

/-- The containers around a value and the way down from it are no longer than the heap. -/
theorem Unfolds.length_add_height_le (hv : h.Unfolds v t) {around : List Address}
    (hround : h.Around around t) : around.length + t.height ≤ h.nodes.size + 1 := by
  induction hv using induction generalizing around with
  | leaf a => exact Nat.succ_le_succ hround.length_le
  | @list a items ts hn hitems ih =>
    have hself := Unfolds.list hn hitems
    have hle : Tree.heightOfAll ts ≤ h.nodes.size - around.length := by
      refine Tree.heightOfAll_le (forall_mem_right ih fun w u hu ⟨_, hw⟩ => ?_)
      have := hw (hround.cons hself (Nat.lt_succ_of_le (Tree.height_le_of_mem hu)))
      rw [List.length_cons] at this
      omega
    have := hround.length_le
    rw [Tree.height]
    omega
  | @dict a es fs hn hdistinct hentries ih =>
    have hself := Unfolds.dict hn hdistinct hentries
    have hle : Tree.heightOfEntries fs ≤ h.nodes.size - around.length := by
      refine Tree.heightOfEntries_le (forall_mem_right ih fun e f hf he => ?_)
      obtain ⟨k, _, hw⟩ := he
      have := hw (hround.cons hself (Nat.lt_succ_of_le (Tree.height_le_of_mem_entries hf)))
      rw [List.length_cons] at this
      dsimp only
      omega
    have := hround.length_le
    rw [Tree.height]
    omega

theorem Unfolds.height_le_fuel (hv : h.Unfolds v t) (σ : Schema) (w : Value) :
    t.height ≤ h.fuel σ w := by
  have hle := hv.length_add_height_le (Around.nil h t)
  rw [List.length_nil, Nat.zero_add] at hle
  calc t.height ≤ (h.nodes.size + 2) * 1 := by omega
    _ ≤ h.fuel σ w := Nat.mul_le_mul_left _ (by omega)

/-! ## JSON texts -/

theorem key_value (h : Heap) (k : Tree.Key) :
    Json.key h k.value = provided k.atom.prints (Json.quoted k.name) := by
  cases k with
  | null | bool | text => rfl
  | int n =>
    rw [Tree.Key.value, Tree.Key.atom, Tree.Atom.scalar, Json.key, Json.scalar?, scalarText_int]
    · exact provided_map Json.quoted _ _
    all_goals simp

theorem printWith_atom (a : Tree.Atom) (around : List Address) :
    Json.printWith σ h (fuel + 1) depth around (.scalar a.scalar) = provided a.prints a.json := by
  cases a with
  | int n => exact scalarText_int n
  | null | bool | float | text => rfl

theorem Unfolds.printWith (hv : h.Unfolds v t) {around : List Address} (hfuel : t.height ≤ fuel)
    (hround : h.Around around t) :
    Json.printWith σ h fuel depth around v = provided t.prints (t.json depth) := by
  induction hv using induction generalizing fuel depth around with
  | leaf a =>
    obtain ⟨fuel, rfl⟩ := Tree.exists_succ_of_height_le hfuel
    exact printWith_atom a around
  | @list a items ts hn hitems ih =>
    obtain ⟨fuel, rfl⟩ := Tree.exists_succ_of_height_le hfuel
    have hself := Unfolds.list hn hitems
    have hparts : List.Forall₂ (fun v t => Json.printWith σ h fuel (depth + 1) (a :: around) v =
        provided t.prints (t.json (depth + 1))) items ts := by
      refine forall₂_of_mem ih fun w u hu ⟨_, hw⟩ => ?_
      have hlt := Nat.lt_succ_of_le (Tree.height_le_of_mem hu)
      exact hw (Tree.height_le_of_mem_list hfuel hu) (hround.cons hself hlt)
    rw [Json.printWith, Tree.prints_list, Tree.json_list]
    simp only [hn, hround.contains hself, mapM_provided hparts]
    exact provided_return _ _ _
  | @dict a es fs hn hdistinct hentries ih =>
    obtain ⟨fuel, rfl⟩ := Tree.exists_succ_of_height_le hfuel
    have hself := Unfolds.dict hn hdistinct hentries
    have hparts : List.Forall₂ (fun (e : Value × Value) (f : Tree.Key × Tree) => (do
        let k ← Json.key h e.1
        return k ++ ": " ++ (← Json.printWith σ h fuel (depth + 1) (a :: around) e.2)) =
          provided (f.1.atom.prints && f.2.prints)
            (Json.quoted f.1.name ++ ": " ++ f.2.json (depth + 1))) es fs := by
      refine forall₂_of_mem ih fun e f hf he => ?_
      obtain ⟨k, _, hw⟩ := he
      have hlt := Nat.lt_succ_of_le (Tree.height_le_of_mem_entries hf)
      rw [key_value, hw (Tree.height_le_of_mem_dict hfuel hf) (hround.cons hself hlt)]
      exact provided_bind (provided_return _ _ _)
    rw [Json.printWith, Tree.prints_dict, Tree.json_dict]
    simp only [hn, hround.contains hself, mapM_provided hparts]
    exact provided_return _ _ _

end Heap

end Dotpath

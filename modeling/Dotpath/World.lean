import Dotpath.Fault

/-!
# Files and variables around a run

A run sees a tree of files, the variables of its environment, and what comes in on its input.  It
runs on a `World` and leaves another one, in which files are new or changed.
-/

namespace Dotpath

/-- A place in the tree of directories: the names from the root on. -/
abbrev Place := List String

namespace Place

/-- Goes from a place along the parts of a path. -/
def follow (base : Place) (parts : List String) : Place :=
  (parts.foldl (fun (done : List String) p =>
    if p.isEmpty || p == "." then done else if p == ".." then done.tail else p :: done)
    base.reverse).reverse

/-- The place that a path leads to from a directory. -/
def ofText (base : Place) (path : String) : Place :=
  follow (if path.startsWith "/" then [] else base) (path.splitOn "/")

/-- The path of a place. -/
def text (p : Place) : String := "/" ++ String.intercalate "/" p

/-- The directory of a place. -/
def parent (p : Place) : Place := p.dropLast

/-- Whether a place is a directory somewhere around another. -/
def isAround (p q : Place) : Bool := p.isPrefixOf q && p != q

end Place

/-- A path without the parts that do not matter. -/
def tidyPath (path : String) : String :=
  let parts := (path.splitOn "/").filter fun p => !p.isEmpty && p != "."
  let body := String.intercalate "/" parts
  if path.startsWith "/" then "/" ++ body else if parts.isEmpty then "." else body

/-- What a run finds and leaves. -/
structure World where
  /-- The directory of the run. -/
  here : Place
  files : List (Place × String) := []
  /-- Directories beside those that hold files. -/
  directories : List Place := []
  env : List (String × String) := []
  input : String := ""
  deriving Repr, Inhabited

namespace World

/-- The text of a file. -/
def file? (w : World) (p : Place) : Option String := w.files.lookup p

/-- Whether a directory is at a place. -/
def isDirectory (w : World) (p : Place) : Bool :=
  p == w.here || p.isAround w.here || w.directories.contains p ||
    w.files.any fun (q, _) => p.isAround q

/-- A variable of the environment. -/
def envVar? (w : World) (name : String) : Option String := w.env.lookup name

/-- The trouble at a place that holds no file. -/
def trouble (w : World) (p : Place) : FileTrouble :=
  if w.isDirectory p then .isDirectory
  else if w.files.any fun (q, _) => q.isAround p then .notDirectory
  else .missing

/-- The text of the file that a path leads to. -/
def openFile (w : World) (path : String) : Except FileTrouble String :=
  let p := Place.ofText w.here path
  if path.isEmpty then .error .missing
  else match w.file? p with
    | some text => if path.endsWith "/" then .error .notDirectory else .ok text
    | none => .error (w.trouble p)

/-- The world with a file written. -/
def writeFile (w : World) (p : Place) (text : String) : World :=
  { w with files := (p, text) :: w.files.filter (·.1 != p) }

/-- Writes the file that a path leads to, in a directory that is there. -/
def saveFile (w : World) (path text : String) : Except Fault World :=
  let p := Place.ofText w.here path
  if (w.file? p).isSome || (!w.isDirectory p && w.isDirectory p.parent) then
    .ok (w.writeFile p text)
  else .error (.unopened (w.trouble p) (tidyPath path))

theorem here_writeFile (w : World) (p : Place) (text : String) :
    (w.writeFile p text).here = w.here := rfl

theorem envVar?_writeFile (w : World) (p : Place) (text name : String) :
    (w.writeFile p text).envVar? name = w.envVar? name := rfl

theorem file?_writeFile_self (w : World) (p : Place) (text : String) :
    (w.writeFile p text).file? p = some text := by
  simp [file?, writeFile]

theorem file?_writeFile_of_ne {w : World} {p q : Place} (hpq : q ≠ p) (text : String) :
    (w.writeFile p text).file? q = w.file? q := by
  rw [file?, writeFile, List.lookup_cons, beq_false_of_ne hpq, file?]
  change List.lookup q (w.files.filter (·.1 != p)) = List.lookup q w.files
  induction w.files with
  | nil => rfl
  | cons f fs ih =>
    obtain ⟨r, old⟩ := f
    by_cases hr : r = p
    · rw [List.filter_cons_of_neg (by simp [hr]), List.lookup_cons, hr, beq_false_of_ne hpq, ih]
    · rw [List.filter_cons_of_pos (by simp [hr]), List.lookup_cons, List.lookup_cons, ih]

end World

end Dotpath

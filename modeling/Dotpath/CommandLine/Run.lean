import Dotpath.CommandLine.Command
import Dotpath.Document.Output
import Dotpath.Document.Yaml.Reader

/-!
# Running commands

What a command prints, how it ends, and the files that it leaves.  A run is a function of its words
and of the world around it: reading a document, walking it and writing it back are the functions of
the library.  The world is the state of a run, and a run that stops leaves it as it is by then, with
all that was written before.
-/

namespace Dotpath.CommandLine

/-- Why a run stops early. -/
inductive Stop where
  /-- The command could not do what it was asked for. -/
  | failure (message : String)
  | misuse (m : Misuse)
  | fault (f : Fault)
  deriving Repr

/-- What comes of a run. -/
structure Answer where
  /-- What is printed. -/
  output : String := ""
  stop : Option Stop := none
  world : World
  deriving Repr

/-- A text as a line of its own. -/
def line (s : String) : String := s ++ "\n"

/-- A text without the line breaks at its end. -/
def trimBreaks (s : String) : String :=
  String.ofList ((s.toList.reverse.dropWhile (· == '\n')).reverse)

/-- A fault that stops the run. -/
def orFault {α : Type} : Except Fault α → Except Stop α
  | .ok a => .ok a
  | .error f => .error (.fault f)

/-- A misuse that stops the run. -/
def orMisuse {α : Type} : Except Misuse α → Except Stop α
  | .ok a => .ok a
  | .error m => .error (.misuse m)

/-- What a walker raises, as it stops the run. -/
def orRaised {α : Type} : Except Raised α → Except Stop α
  | .ok a => .ok a
  | .error (.failure f) => .error (.failure (f.code.name ++ ": " ++ f.message))
  | .error (.relayed code f) => .error (.failure (code.name ++ ": " ++ f.message))
  | .error (.fault f) => .error (.fault f)

/-- A document's value, or the misuse if its text is malformed. -/
def readText (m : Misuse) (h : Heap) (text : String) : Except Stop (Value × Heap) :=
  match Yaml.read h text with
  | .ok r => .ok r
  | .error .document => .error (.misuse m)
  | .error f => .error (.fault f)

/-- Loads the document of a file, or of the input for a hyphen. -/
def load (w : World) (name : String) : Except Stop (Value × Heap) :=
  if name == "-" then readText .malformedDocument {} w.input
  else match w.openFile name with
    | .error t => .error (.failure ("Could not open file " ++ Text.quoted name ++ ": " ++ t.message))
    | .ok text => readText .malformedDocument {} text

/-- The values at paths of a document, as one value: by path if there are several. -/
def gather (h : Heap) (paths : List Path) (values : List Value) : Value × Heap :=
  match values with
  | [v] => (v, h)
  | vs => h.allocDict (Entries.ofList ((paths.map fun p => .scalar (.text p.print)).zip vs))

/-- Prints the values at paths of a document. -/
def runGet (w : World) (s : Settings) (document : String) (paths : List String)
    (format : Option String) : Except Stop String := do
  let (host, h) ← load w document
  let walker ← orFault (s.walker (paths.map .text))
  let r := walker.readValues {} h host
  let values ← orRaised r.result
  let (v, h) := gather r.heap walker.paths values
  return line (trimBreaks (← orFault (h.document {} v (format.getD s.outputFormat))))

/-- Stores a value at a path of a document, and gives the text of the document. -/
def stored (w : World) (s : Settings) (document path value : String) (format : Option String) :
    Except Stop String := do
  let (host, h) ← load w document
  let (v, h) ← readText .malformedValue h value
  let walker ← orFault (s.walker [.text path])
  let r := walker.write {} h host v
  if !(← orRaised r.result) then
    throw (.failure ("Nothing written: " ++ path ++
      " leads nowhere (use --strict for details)"))
  orFault (r.heap.document {} host (format.getD s.outputFormat))

/-- Checks that a value can be stored where it is asked for: in one place at most, in a file, and in a
part of the document. -/
def checkTarget (document path : String) (output : Option String) (inPlace : Bool) :
    Except Misuse Unit :=
  if inPlace && output.isSome then .error .twoTargets
  else if inPlace && document == "-" then .error .inputInPlace
  else if (Path.parse path).isEmpty then .error .emptyPath
  else .ok ()

/-- A run under way.  Where it stops, the world is left as the run has made it. -/
abbrev Running := EStateM Stop World

namespace Running

/-- A stage of a run that looks at the world and changes nothing. -/
def look {α : Type} (f : World → Except Stop α) : Running α := fun w =>
  match f w with
  | .ok a => .ok a w
  | .error stop => .error stop w

/-- Writes the file that a path leads to. -/
def saveFile (path text : String) : Running Unit := fun w =>
  match w.saveFile path text with
  | .ok w' => .ok () w'
  | .error f => .error (.fault f) w

/-- What is printed in the end and the world after it, if the run does not stop. -/
def outcome {α : Type} (x : Running α) (w : World) : Except Stop (α × World) :=
  match x w with
  | .ok a w' => .ok (a, w')
  | .error stop _ => .error stop

/-- Writes the text of a document to the file that a path leads to, or prints it if there is none. -/
def deliver (target : Option String) (text : String) : Running String :=
  match target with
  | none => return line (trimBreaks text)
  | some target => do
    saveFile target text
    return ""

/-- Stores a value at a path of a document, and writes or prints the text of the document. -/
def store (s : Settings) (document path value : String) (output : Option String) (inPlace : Bool)
    (format : Option String) : Running String := do
  look fun _ => orMisuse (checkTarget document path output inPlace)
  let text ← look fun w => stored w s document path value format
  deliver (if inPlace then some document else output) text

end Running

/-- Stores a value at a path of a document: what is printed, and the world after it. -/
def runSet (w : World) (s : Settings) (document path value : String) (output : Option String)
    (inPlace : Bool) (format : Option String) : Except Stop (String × World) :=
  (Running.store s document path value output inPlace format).outcome w

/-- A segment in JSON. -/
def segmentText : Segment → String
  | none => "null"
  | some s => Json.quoted s

/-- Shows how a path splits into segments. -/
def runParse (path : String) : String :=
  let p := Path.parse path
  let lines := (p.segments.zipIdx).map fun (s, i) => line (toString i ++ "\t" ++ segmentText s)
  String.join lines ++ line ("escaped:   " ++ p.print) ++ line ("canonical: " ++ p.canonical.print)

/-- Shows the path of segments. -/
def runEscape (segments : List String) (nullToken : Option String) : String :=
  line (Path.ofSegments (segments.map fun s => if nullToken = some s then none else some s)).print

namespace Running

/-- Shows the settings, and saves them if this is wanted. -/
def config (s : Session) (save : Bool) : Running String := do
  let (v, h) := Heap.allocDict {} s.settings.entries
  let text ← look fun _ => orFault (h.document {} v "yaml")
  let shown := line ("# " ++ s.place.text) ++ line (trimBreaks text)
  if save then
    modify s.save
    return shown ++ line ("Saved settings to " ++ (Session.file s.place).text)
  else return shown

/-- Runs a command with the options in front of it. -/
def command (directory : Option String) (given : Overrides) (c : Command) : Running String := do
  let session : Running Session := look fun w => orFault (Session.begin w directory given)
  match c with
  | .get document paths format =>
    let s ← session
    look fun w => runGet w s.settings document paths format
  | .set document path value output inPlace format =>
    store (← session).settings document path value output inPlace format
  | .parse path => return runParse path
  | .escape segments nullToken => return runEscape segments nullToken
  | .config save => config (← session) save
  | .help => return line "Usage: pathwalk [OPTIONS] COMMAND [ARGS]..."

end Running

/-- Runs a command: what is printed, and the world after it. -/
def runCommand (w : World) (i : Invocation) : Except Stop (String × World) :=
  (Running.command i.directory i.given i.command).outcome w

/-- Runs a command line. -/
def run (w : World) (words : List String) : Answer :=
  match readInvocation w words with
  | .error m => { stop := some (.misuse m), world := w }
  | .ok i =>
    match Running.command i.directory i.given i.command w with
    | .ok output world => { output, world }
    | .error stop world => { stop := some stop, world }

/-- The exit status of a run. -/
def Answer.status (a : Answer) : Nat :=
  match a.stop with
  | none => 0
  | some (.misuse _) => 2
  | some _ => 1

/-- Everything that a run shows.  `complaint` is what the reader of documents has to say. -/
def Answer.shown (a : Answer) (complaint : String) : String :=
  match a.stop with
  | none => a.output
  | some (.failure message) => a.output ++ line ("Error: " ++ message)
  | some (.misuse m) => a.output ++ line ("Error: " ++ m.message complaint)
  | some (.fault f) => a.output ++ line (f.kind.name ++ ": " ++ f.message)

end Dotpath.CommandLine

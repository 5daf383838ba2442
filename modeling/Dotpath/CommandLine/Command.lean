import Dotpath.CommandLine.Options
import Dotpath.Settings.Session

/-!
# Commands

The commands that a command line can ask for, and how they are read from its words.
-/

namespace Dotpath.CommandLine

/-- A command. -/
inductive Command where
  /-- Prints the values at paths of a document. -/
  | get (document : String) (paths : List String) (format : Option String)
  /-- Stores a value at a path of a document. -/
  | set (document path value : String) (output : Option String) (inPlace : Bool)
    (format : Option String)
  /-- Shows how a path splits into segments. -/
  | parse (path : String)
  /-- Shows the path of segments. -/
  | escape (segments : List String) (nullToken : Option String)
  /-- Shows the settings. -/
  | config (save : Bool)
  | help
  deriving DecidableEq, Repr

/-- A command with the options in front of it. -/
structure Invocation where
  directory : Option String := none
  given : Overrides := {}
  command : Command
  deriving DecidableEq, Repr

/-- The option that asks for help. -/
def helpSwitch : Switch := { names := ["--help"], key := "help", fixed := some "" }

/-- The option that picks a format. -/
def formatSwitch : Switch := { names := ["--format"], key := "format" }

/-- The options in front of the command. -/
def globalSwitches : List Switch :=
  [{ names := ["--settings-dir"], key := "directory" },
    { names := ["-v", "--verbose"], key := "verbose", fixed := some "" },
    { names := ["--strict"], key := "strict", fixed := some "strict" },
    { names := ["--lenient"], key := "strict", fixed := some "lenient" },
    { names := ["--key-type"], key := "keys" },
    { names := ["--version"], key := "help", fixed := some "" },
    helpSwitch]

/-- The options of commands, by their names. -/
def commandSwitches : List (String × List Switch) :=
  [("config", [{ names := ["--save"], key := "save", fixed := some "" }, helpSwitch]),
    ("escape", [{ names := ["--null-token"], key := "null" }, helpSwitch]),
    ("get", [formatSwitch, helpSwitch]),
    ("parse", [helpSwitch]),
    ("set", [{ names := ["-o", "--output"], key := "output" },
      { names := ["--in-place"], key := "inPlace", fixed := some "" }, formatSwitch, helpSwitch])]

/-- A list of words in order. -/
def inOrder (words : List String) : List String := words.mergeSort fun a b => a ≤ b

/-- Checks the last decision under a key. -/
def checkDecision (w : World) (ds : Decisions) (key : String) : Except Misuse Unit :=
  match decision? ds key with
  | none => .ok ()
  | some v =>
    let place := Place.ofText w.here v
    let choice (option : String) (choices : List String) : Except Misuse Unit :=
      if choices.contains v then .ok () else .error (.notAChoice option v (inOrder choices))
    if key == "format" then choice "--format" outputFormats
    else if key == "keys" then choice "--key-type" keyTypes
    else if key == "directory" then
      if !v.isEmpty && (w.file? place).isSome then
        .error (.wrongKind "'--settings-dir'" "Directory" v "file")
      else .ok ()
    else if key == "output" then
      if !v.isEmpty && w.isDirectory place then
        .error (.wrongKind "'-o' / '--output'" "File" v "directory")
      else .ok ()
    else .ok ()

/-- Checks the decisions, in the order in which the options are met. -/
def checkDecisions (w : World) (ds : Decisions) : Except Misuse Unit :=
  ds.forM fun (key, _) => checkDecision w ds key

/-- Reads a command's own words. -/
def readCommand (w : World) (name : String) (switches : List Switch) (words : List String) :
    Except Misuse Command := do
  let (ds, args) ← splitWords switches true words
  if (decision? ds "help").isSome then return .help
  checkDecisions w ds
  let format := decision? ds "format"
  if name == "get" then
    let (one, many) ← takeArguments ["DOCUMENT"] (some "PATHS") args
    return .get (one.headD "") many format
  else if name == "set" then
    let (one, _) ← takeArguments ["DOCUMENT", "PATH", "VALUE"] none args
    return .set (one.headD "") ((one[1]?).getD "") ((one[2]?).getD "") (decision? ds "output")
      (decision? ds "inPlace").isSome format
  else if name == "parse" then
    let (one, _) ← takeArguments ["PATH"] none args
    return .parse (one.headD "")
  else if name == "escape" then
    let (_, many) ← takeArguments [] (some "SEGMENTS") args
    return .escape many (decision? ds "null")
  else
    let _ ← takeArguments [] none args
    return .config (decision? ds "save").isSome

/-- Reads the words of a command line. -/
def readInvocation (w : World) (words : List String) : Except Misuse Invocation := do
  let (ds, rest) ← splitWords globalSwitches false words
  if (decision? ds "help").isSome then return { command := .help }
  checkDecisions w ds
  match rest with
  | [] => throw .noCommand
  | name :: words =>
    match commandSwitches.lookup name with
    | none => throw (.noSuchCommand name (Text.closest name (commandSwitches.map (·.1))))
    | some switches =>
      let given : Overrides :=
        { verbose := if (decision? ds "verbose").isSome then some true else none
          strict := (decision? ds "strict").map (· == "strict")
          keyType := decision? ds "keys" }
      let command ← readCommand w name switches words
      return ⟨decision? ds "directory", given, command⟩

end Dotpath.CommandLine

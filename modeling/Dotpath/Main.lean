import Dotpath.CommandLine.Run

/-!
# The program

Reads the part of the world that a command line can touch, runs the command, and carries out what
it leaves.
-/

namespace Dotpath.Program

/-- The places that words of a command line can name, with the directories around them. -/
def places (here : Place) (words : List String) : List Place :=
  let named := words.flatMap fun w =>
    w :: (if w.contains '=' then [String.ofList ((w.toList.dropWhile (· != '=')).drop 1)] else [])
  (named.map (Place.ofText here)).flatMap fun p => [p, p.parent]

/-- The variables that a run looks at. -/
def envNames : List String :=
  ["PATHWALK_STRICT", "PATHWALK_SETTINGS_DIR", "XDG_DATA_HOME", "HOME"]

/-- Adds what is at a place to a world. -/
def look (w : World) (p : Place) : IO World := do
  let path := (← IO.currentDir) / p.text
  if ← path.isDir then return { w with directories := p :: w.directories }
  else if ← path.pathExists then return w.writeFile p (← IO.FS.readFile path)
  else return w

/-- The world around a run. -/
def observe (words : List String) : IO World := do
  let here := Place.ofText [] (← IO.currentDir).toString
  let env ← envNames.filterMapM fun name => do
    return (← IO.getEnv name).map fun value => (name, value)
  let input ← if words.contains "-" then (← IO.getStdin).readToEnd else pure ""
  let w : World := { here, env, input }
  let settings := match CommandLine.readInvocation w words with
    | .ok i => [Session.file (settingsPlace w i.directory)]
    | .error _ => []
  (places here words ++ settings).foldlM look w

/-- Writes the files that a run has changed. -/
def commit (before after : World) : IO Unit :=
  after.files.forM fun (p, text) => do
    if before.file? p != some text then
      IO.FS.createDirAll p.parent.text
      IO.FS.writeFile p.text text

end Dotpath.Program

/-- Runs a command line. -/
def main (words : List String) : IO UInt32 := do
  let w ← Dotpath.Program.observe words
  let a := Dotpath.CommandLine.run w words
  Dotpath.Program.commit w a.world
  let text := a.shown "the text is malformed"
  if a.status = 0 then IO.print text else IO.eprint text
  return a.status.toUInt32

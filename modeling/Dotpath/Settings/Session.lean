import Dotpath.Settings.Basic
import Dotpath.Walk.Walker
import Dotpath.World

/-!
# Sessions

The settings that a run uses.  What is given explicitly wins over the environment, which wins over
the settings file, which wins over the defaults; each setting is decided on its own.  A session is
the settings of a run together with the directory that they came from.
-/

namespace Dotpath

/-- Settings that are given explicitly. -/
structure Overrides where
  verbose : Option Bool := none
  strict : Option Bool := none
  keyType : Option String := none
  deriving DecidableEq, Repr, Inhabited

/-- The settings of a run, out of the settings file, the environment's wish for strictness, and
what is given explicitly. -/
def effectiveSettings (file : Option String) (strictWish : Option String) (o : Overrides) :
    Except Fault Settings := do
  let loaded ← Settings.read file
  let wished ← match o.strict, strictWish with
    | some b, _ => pure (some b)
    | none, some "" => pure none
    | none, some s => textFlag s
    | none, none => pure none
  return { loaded with
    suppresses := (wished.map (!·)).getD loaded.suppresses
    verbose := o.verbose.getD loaded.verbose
    keyType := o.keyType.getD loaded.keyType }

/-- A walker for paths, configured by settings. -/
def Settings.walker (s : Settings) (paths : List Given) : Except Fault Walker := do
  let keyType ← textChoice s.keyType keyTypes "str"
  Walker.ofPaths paths (!s.suppresses) (keyDeserializer keyType)

/-- The directory of the settings: given, or named by the environment, or the usual one. -/
def settingsPlace (w : World) (given : Option String) : Place :=
  match given, w.envVar? "PATHWALK_SETTINGS_DIR" with
  | some d, _ => .ofText w.here d
  | none, some d => if d.isEmpty then usual else .ofText w.here d
  | none, none => usual
where
  /-- The directory of user data. -/
  usual : Place :=
    let data := (w.envVar? "XDG_DATA_HOME").getD ""
    let data := if (Text.strip data.toList).isEmpty then
        (w.envVar? "HOME").getD "/root" ++ "/.local/share"
      else data
    .ofText w.here (data ++ "/pathwalk")

/-- The settings of a run and where they are kept. -/
structure Session where
  place : Place
  settings : Settings
  deriving Repr

namespace Session

/-- The file of the settings. -/
def file (place : Place) : Place := place ++ [Settings.fileName]

/-- Begins a run. -/
def begin (w : World) (directory : Option String) (o : Overrides) : Except Fault Session := do
  let place := settingsPlace w directory
  return ⟨place, ← effectiveSettings (w.file? (file place)) (w.envVar? "PATHWALK_STRICT") o⟩

/-- The world with the settings saved. -/
def save (s : Session) (w : World) : World := w.writeFile (file s.place) s.settings.fileText

end Session

end Dotpath

import Dotpath.Document.Json.Reader
import Dotpath.Document.Json.Printer
import Dotpath.Settings.Choice
import Dotpath.Walk.Key

/-!
# Settings

What a user can set: whether failures are suppressed, whether to log in detail, the format of
documents that are written, and how segments become mapping keys.  Settings are kept as JSON; a file
that cannot be used gives the default settings.
-/

namespace Dotpath

/-- The settings of a user. -/
structure Settings where
  suppresses : Bool := true
  verbose : Bool := false
  outputFormat : String := "json"
  keyType : String := "str"
  deriving DecidableEq, Repr, Inhabited

/-- The formats of documents. -/
def outputFormats : List String := ["json", "yaml"]

/-- The ways in which segments become mapping keys. -/
def keyTypes : List String := ["str", "int"]

/-- The deserializer behind a key type. -/
def keyDeserializer (keyType : String) : Option Deserializer :=
  if keyType = "int" then some integerKeys else none

namespace Settings

/-- The name of the file that holds settings. -/
def fileName : String := "settings.json"

/-- A flag among given pairs, if it is there. -/
def givenFlag (h : Heap) (es : Entries) (name : String) (default : Bool) : Except Fault Bool :=
  match Entries.find? es (.scalar (.text name)) with
  | none => .ok default
  | some v => do return (← h.asBool {} v).getD default

/-- A choice among given pairs, if it is there. -/
def givenChoice (h : Heap) (es : Entries) (name : String) (choices : List String)
    (default : String) : Except Fault String :=
  match Entries.find? es (.scalar (.text name)) with
  | none => .ok default
  | some v => h.asChoice {} v choices default

/-- Settings out of a mapping.  Values are coerced; unknown keys are left out. -/
def ofValue (h : Heap) (v : Value) : Except Fault Settings :=
  match h.pairs? v with
  | none => .error (.noItems (h.faultTypeName v))
  | some es => do
    let suppresses ← givenFlag h es "suppress_exceptions" true
    let verbose ← givenFlag h es "verbose" false
    let outputFormat ← givenChoice h es "output_format" outputFormats "json"
    let keyType ← givenChoice h es "key_type" keyTypes "str"
    return ⟨suppresses, verbose, outputFormat, keyType⟩

/-- The settings as pairs in order. -/
def entries (s : Settings) : Entries :=
  [(.scalar (.text "suppress_exceptions"), .scalar (.bool s.suppresses)),
    (.scalar (.text "verbose"), .scalar (.bool s.verbose)),
    (.scalar (.text "output_format"), .scalar (.text s.outputFormat)),
    (.scalar (.text "key_type"), .scalar (.text s.keyType))]

/-- Whether a fault only tells that settings cannot be used: a wrong value, a wrong type, or no
mapping at all. -/
def isUnusable (f : Fault) : Bool :=
  f.kind == .valueError || f.kind == .typeError || f.kind == .attributeError

/-- The settings in a file: defaults if there is none, or if it cannot be used.  Any other fault goes
on. -/
def read (file : Option String) : Except Fault Settings :=
  match file with
  | none => .ok {}
  | some text =>
    match Json.read? {} text with
    | none => .ok {}
    | some (v, h) => match ofValue h v with
      | .ok s => .ok s
      | .error f => if isUnusable f then .ok {} else .error f

/-- The settings in a file, or else the defaults. -/
def load (file : Option String) : Settings := (read file).toOption.getD {}

/-- The text of a file that holds the settings. -/
def fileText (s : Settings) : String :=
  let flag (b : Bool) : String := if b then "true" else "false"
  Json.block 0 "\x7b" "\x7d"
    ["\"suppress_exceptions\": " ++ flag s.suppresses, "\"verbose\": " ++ flag s.verbose,
      "\"output_format\": " ++ Json.quoted s.outputFormat,
      "\"key_type\": " ++ Json.quoted s.keyType]

end Settings

end Dotpath

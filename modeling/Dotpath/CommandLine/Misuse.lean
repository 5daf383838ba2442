import Dotpath.Text.Quoted

/-!
# Misuse of the command line

The ways in which a command line asks for something that cannot be done, and what the user is told.
-/

namespace Dotpath.CommandLine

/-- A mistake in a command line. -/
inductive Misuse where
  | noSuchOption (name : String) (similar : List String)
  | valueMissing (option : String)
  | valueUnwanted (option : String)
  | notAChoice (option value : String) (choices : List String)
  /-- A path that has to be a file is a directory, or the other way round. -/
  | wrongKind (option : String) (wanted : String) (path : String) (found : String)
  | noCommand
  | noSuchCommand (name : String) (similar : List String)
  | argumentMissing (name : String)
  | extraArguments (arguments : List String)
  | malformedDocument
  | malformedValue
  | emptyPath
  | twoTargets
  | inputInPlace
  deriving DecidableEq, Repr

namespace Misuse

/-- Words in quotes. -/
def quotedWords (words : List String) : String := Text.commas (words.map Text.quoted)

/-- What might have been meant instead. -/
def suggestion : List String → String
  | [] => ""
  | [w] => " Did you mean " ++ Text.quoted w ++ "?"
  | ws => " (Possible options: " ++ quotedWords (ws.mergeSort fun a b => a ≤ b) ++ ")"

/-- What the user is told.  `complaint` is what the reader of a document has to say about it. -/
def message (complaint : String) : Misuse → String
  | noSuchOption name similar => "No such option " ++ Text.quoted name ++ "." ++ suggestion similar
  | valueMissing option => "Option " ++ Text.quoted option ++ " requires an argument."
  | valueUnwanted option => "Option " ++ Text.quoted option ++ " does not take a value."
  | notAChoice option value choices =>
    "Invalid value for " ++ Text.quoted option ++ ": " ++ Text.quoted value ++ " is not one of " ++
      quotedWords choices ++ "."
  | wrongKind option wanted path found =>
    "Invalid value for " ++ option ++ ": " ++ wanted ++ " " ++ Text.quoted path ++ " is a " ++
      found ++ "."
  | noCommand => "Missing command."
  | noSuchCommand name similar =>
    "No such command " ++ Text.quoted name ++ "." ++ suggestion similar
  | argumentMissing name => "Missing argument '" ++ name ++ "'."
  | extraArguments arguments =>
    "Got unexpected extra argument" ++ (if arguments.length = 1 then "" else "s") ++ " (" ++
      String.intercalate " " arguments ++ ")"
  | malformedDocument =>
    "Invalid value for DOCUMENT: not a JSON or YAML document: " ++ complaint
  | malformedValue => "Invalid value for VALUE: " ++ complaint
  | emptyPath => "Invalid value for PATH: cannot replace the document itself"
  | twoTargets => "--in-place and --output are mutually exclusive"
  | inputInPlace => "Cannot update stdin in place"

end Misuse

end Dotpath.CommandLine

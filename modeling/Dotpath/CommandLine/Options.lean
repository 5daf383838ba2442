import Dotpath.CommandLine.Misuse
import Dotpath.Text.Similarity

/-!
# Options and arguments

Splits the words of a command line into options and arguments.  Options of one letter can be
written together, and an option's value follows it as a word of its own, after an equals sign, or
right after its letter.  Two hyphens end the options.
-/

namespace Dotpath.CommandLine

/-- An option of a command. -/
structure Switch where
  names : List String
  /-- What the option decides. -/
  key : String
  /-- The decision, if the option takes no value. -/
  fixed : Option String := none

/-- The decisions of options, in order. -/
abbrev Decisions := List (String × String)

/-- The option with a name. -/
def switch? (switches : List Switch) (name : String) : Option Switch :=
  switches.find? (·.names.contains name)

/-- The names of the options that are words. -/
def longNames (switches : List Switch) : List String :=
  switches.flatMap fun s => s.names.filter (·.startsWith "--")

/-- What one word of options amounts to: decisions, and an option that still wants a value. -/
structure Reading where
  decided : Decisions := []
  wanting : Option (String × String) := none

/-- Options of one letter each. -/
def readLetters (switches : List Switch) : List Char → Except Misuse Reading
  | [] => .ok {}
  | c :: cs =>
    let name := String.ofList ['-', c]
    match switch? switches name with
    | none => .error (.noSuchOption name [])
    | some s => match s.fixed with
      | some v => do
        let r ← readLetters switches cs
        return { r with decided := (s.key, v) :: r.decided }
      | none =>
        if cs.isEmpty then .ok { wanting := some (name, s.key) }
        else .ok { decided := [(s.key, String.ofList cs)] }

/-- An option that is a word, perhaps with a value after an equals sign. -/
def readWord (switches : List Switch) (word : String) : Except Misuse Reading :=
  let cs := word.toList
  let name := String.ofList (cs.takeWhile (· != '='))
  let value := if cs.contains '=' then some (String.ofList ((cs.dropWhile (· != '=')).drop 1))
    else none
  let s := if name.length > 2 then switch? switches name else none
  match s with
  | none =>
    if word.startsWith "--" then .error (.noSuchOption name (Text.closest name (longNames switches)))
    else readLetters switches (cs.drop 1)
  | some s => match s.fixed, value with
    | some _, some _ => .error (.valueUnwanted name)
    | some v, none => .ok { decided := [(s.key, v)] }
    | none, some v => .ok { decided := [(s.key, v)] }
    | none, none => .ok { wanting := some (name, s.key) }

/-- Splits words into the decisions of options and arguments.  Unless options may stand between
arguments, the first argument ends them. -/
def splitWords (switches : List Switch) (mixed : Bool) : List String →
    Except Misuse (Decisions × List String)
  | [] => .ok ([], [])
  | word :: words =>
    if word == "--" then .ok ([], words)
    else if word.startsWith "-" && word.length > 1 then do
      let r ← readWord switches word
      match r.wanting with
      | none => do
        let (ds, args) ← splitWords switches mixed words
        return (r.decided ++ ds, args)
      | some (name, key) =>
        match words with
        | [] => throw (.valueMissing name)
        | value :: words => do
          let (ds, args) ← splitWords switches mixed words
          return (r.decided ++ (key, value) :: ds, args)
    else if mixed then do
      let (ds, args) ← splitWords switches mixed words
      return (ds, word :: args)
    else .ok ([], word :: words)

/-- The last decision under a key. -/
def decision? (ds : Decisions) (key : String) : Option String := ds.reverse.lookup key

/-- The arguments by name: those that stand for one word each, and at the end one for all the other
words, of which there is one at least. -/
def takeArguments (names : List String) (many : Option String) (words : List String) :
    Except Misuse (List String × List String) :=
  match names.drop words.length, many with
  | name :: _, _ => .error (.argumentMissing name)
  | [], some name =>
    if words.length = names.length then .error (.argumentMissing (name ++ "..."))
    else .ok (words.take names.length, words.drop names.length)
  | [], none =>
    if words.length > names.length then .error (.extraArguments (words.drop names.length))
    else .ok (words, [])

end Dotpath.CommandLine

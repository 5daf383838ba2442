import Dotpath.Graph.Text

/-!
# Flags and choices

How a truth value or one of several words is made out of what a user wrote into a settings file or
an environment variable.
-/

namespace Dotpath

/-- The words for true. -/
def trueWords : List String := ["1", "true", "yes", "on"]

/-- The words for false. -/
def falseWords : List String := ["0", "false", "no", "off", "null"]

/-- A text without surrounding blanks and in small letters. -/
def normalWord (s : String) : String := String.ofList (Text.lower (Text.strip s.toList))

/-- The truth value that a word stands for. -/
def flagWord? (s : String) : Option Bool :=
  let w := normalWord s
  if trueWords.contains w then some true
  else if falseWords.contains w then some false
  else none

/-- The truth value that a scalar stands for: itself, a word, or the numbers zero and one. -/
def Scalar.flag? : Scalar → Option Bool
  | .bool b => some b
  | .text s | .machine "str_" (.text s) => flagWord? s
  | .int n => if n = 0 then some false else if n = 1 then some true else none
  | .float x | .machine "float64" (.float x) => match x.quantity with
    | .ratio 0 _ => some false
    | .ratio 1 1 => some true
    | _ => none
  | _ => none

namespace Heap

/-- A value as a flag; null leaves it unset. -/
def asBool (σ : Schema) (h : Heap) (v : Value) : Except Fault (Option Bool) :=
  if v.isNull then .ok none
  else match (match v with
    | .scalar s => s.flag?
    | _ => none) with
    | some b => .ok (some b)
    | none => do throw (.notBool (h.typeName v) (← h.quoted σ v))

/-- A value as one of several words; null and blank text stand for the default. -/
def asChoice (σ : Schema) (h : Heap) (v : Value) (choices : List String) (default : String) :
    Except Fault String :=
  if v.isNull then .ok default
  else do
    let word := normalWord (← h.text σ v)
    if word.isEmpty then return default
    else if choices.contains word then return word
    else throw (.notChoice (choices.mergeSort fun a b => a ≤ b) (← h.quoted σ v))

end Heap

/-- A text as a flag. -/
def textFlag (s : String) : Except Fault (Option Bool) :=
  Heap.asBool {} {} (.scalar (.text s))

/-- A text as one of several words. -/
def textChoice (s : String) (choices : List String) (default : String) : Except Fault String :=
  Heap.asChoice {} {} (.scalar (.text s)) choices default

end Dotpath

import Dotpath.Graph.Value
import Dotpath.Scalar.Text

/-!
# Annotations

The declared type of an attribute, and the text that messages show for it.
-/

namespace Dotpath

/-- The declared type of an attribute. -/
inductive Annotation where
  /-- No restriction. -/
  | any
  /-- Null, written as itself. -/
  | null
  /-- A class, built in or of the schema. -/
  | named (type : String)
  /-- One of several types; written with bars, or else with the word `Union`. -/
  | union (members : List Annotation) (bars : Bool)
  | list (item : Annotation)
  | set (item : Annotation)
  | dict (key value : Annotation)
  | tuple (items : List Annotation)
  | tupleOf (item : Annotation)
  | literal (values : List Scalar)
  /-- A type with a remark that cannot be hashed, which switches checks off. -/
  | remarked (type : Annotation)
  /-- A class that may be defined later, by name. -/
  | forward (type : String)
  deriving Repr, Inhabited, BEq

/-- The modules of the types that annotations may name besides those of values. -/
def annotationModules : List (String × String) :=
  [("Sequence", "collections.abc"), ("Mapping", "collections.abc"), ("BaseModel", "pydantic.main")]

/-- A class's name together with its module. -/
def annotationTypeText (type : String) : String :=
  match annotationModules.lookup type with
  | some m => m ++ "." ++ type
  | none => qualifiedName type

namespace Annotation

/-- The class of null. -/
def nullType : Annotation := .named "NoneType"

/-- The members of a list, each once. -/
def distinct (as : List Annotation) : List Annotation :=
  as.foldl (fun seen a => if seen.contains a then seen else seen ++ [a]) []

/-- One of several types: nested choices are flattened, and a choice of one is that one. -/
def choice (bars : Bool) (as : List Annotation) : Annotation :=
  let flat := as.flatMap fun
    | .union members _ => members
    | .null => [nullType]
    | a => [a]
  let worded := as.any fun
    | .union _ false => true
    | _ => false
  match distinct flat with
  | [a] => a
  | members => .union members (bars && !worded)

/-- The text of a literal value. -/
def literalText (s : Scalar) : String := s.quoted?.getD ""

mutual

/-- The annotation as it shows inside another one. -/
def inner : Annotation → String
  | .any => "Any"
  | .null => "None"
  | .named t => annotationTypeText t
  | .union [a, b] false =>
    if b == nullType then "Optional[" ++ inner a ++ "]"
    else if a == nullType then "Optional[" ++ inner b ++ "]"
    else "Union[" ++ inner a ++ ", " ++ inner b ++ "]"
  | .union members false => "Union[" ++ Text.commas (innerAll members) ++ "]"
  | .union members true => String.intercalate " | " (alternatives members)
  | .list a => "list[" ++ inner a ++ "]"
  | .set a => "set[" ++ inner a ++ "]"
  | .dict k v => "dict[" ++ inner k ++ ", " ++ inner v ++ "]"
  | .tuple [] => "tuple[()]"
  | .tuple items => "tuple[" ++ Text.commas (innerAll items) ++ "]"
  | .tupleOf a => "tuple[" ++ inner a ++ ", ...]"
  | .literal values => "Literal[" ++ Text.commas (values.map literalText) ++ "]"
  | .remarked a => "Annotated[" ++ inner a ++ ", []]"
  | .forward t => Text.quoted t

/-- Several annotations as they show inside another one. -/
def innerAll : List Annotation → List String
  | [] => []
  | a :: as => inner a :: innerAll as

/-- The members of a union as they show between bars. -/
def alternatives : List Annotation → List String
  | [] => []
  | a :: as => (if a == nullType then "None" else inner a) :: alternatives as

end

/-- The annotation as messages show it: a class alone by its bare name. -/
def text : Annotation → String
  | .named t => t
  | a => a.inner

mutual

/-- The annotation as it is resolved: without remarks, and with the classes that `known` has in
place of their names.  There is none if a name is unknown. -/
def resolve? (known : String → Bool) : Annotation → Option Annotation
  | .null => some nullType
  | .remarked a => resolve? known a
  | .forward t => if known t then some (.named t) else none
  | .union members bars => (resolveAll? known members).map (.union · bars)
  | .list a => (resolve? known a).map .list
  | .set a => (resolve? known a).map .set
  | .dict k v => do return .dict (← resolve? known k) (← resolve? known v)
  | .tuple items => (resolveAll? known items).map .tuple
  | .tupleOf a => (resolve? known a).map .tupleOf
  | a => some a

/-- Several annotations as they are resolved. -/
def resolveAll? (known : String → Bool) : List Annotation → Option (List Annotation)
  | [] => some []
  | a :: as => do return (← resolve? known a) :: (← resolveAll? known as)

end

mutual

/-- Whether the annotation holds something that checks cannot handle: a remark, a name that is not
resolved, or a type that exists only as a remark itself. -/
def isOpaque : Annotation → Bool
  | .remarked _ | .forward _ => true
  | .named t => t == "TD"
  | .union members _ => anyOpaque members
  | .list a | .set a | .tupleOf a => a.isOpaque
  | .dict k v => k.isOpaque || v.isOpaque
  | .tuple items => anyOpaque items
  | _ => false

/-- Whether one of several annotations cannot be handled. -/
def anyOpaque : List Annotation → Bool
  | [] => false
  | a :: as => a.isOpaque || anyOpaque as

end

end Annotation

end Dotpath

import Dotpath.Scalar.Moment

/-!
# Scalars

The immutable values without parts.  A machine scalar is a number or text that carries the name of
the fixed-size type it was stored in.
-/

namespace Dotpath

/-- A value without parts. -/
inductive Scalar where
  | null
  | bool (b : Bool)
  | int (n : Int)
  | float (x : Binary64)
  | complex (re im : Binary64)
  | text (s : String)
  | bytes (bs : List UInt8)
  /-- A window on bytes. -/
  | memory (bs : List UInt8)
  | decimal (digits : String)
  | fraction (quotient : String)
  | uuid (digits : String)
  | filePath (path : String)
  | date (d : Date)
  | dateTime (d : Date) (t : TimeOfDay)
  | time (t : TimeOfDay)
  | duration (seconds : Int)
  /-- A member of the enumeration of colours. -/
  | colour (member : String)
  /-- A class, as a value. -/
  | class (name : String)
  | machine (type : String) (value : Scalar)
  deriving DecidableEq, Repr, Inhabited

namespace Scalar

/-- The name of a scalar's type. -/
def typeName : Scalar → String
  | null => "NoneType"
  | bool _ => "bool"
  | int _ => "int"
  | float _ => "float"
  | complex _ _ => "complex"
  | text _ => "str"
  | bytes _ => "bytes"
  | memory _ => "memoryview"
  | decimal _ => "Decimal"
  | fraction _ => "Fraction"
  | uuid _ => "UUID"
  | filePath _ => "PurePosixPath"
  | date _ => "date"
  | dateTime _ _ => "datetime"
  | time _ => "time"
  | duration _ => "timedelta"
  | colour _ => "Color"
  | .class _ => "type"
  | machine type _ => type

/-- The scalar without the name of its fixed-size type. -/
def plain : Scalar → Scalar
  | machine _ v => v
  | s => s

/-- The scalar that a fixed-size type holds for a plain one: numbers are rounded to its size. -/
def ofMachine (type : String) (s : Scalar) : Scalar :=
  match type, s with
  | "float32", float x => machine type (float (x.narrow .single))
  | "float16", float x => machine type (float (x.narrow .half))
  | "complex64", complex re im =>
    machine type (complex (re.narrow .single) (im.narrow .single))
  | type, s => machine type s

end Scalar

/-- The names of the built-in types, which are shown without a module. -/
def builtinTypes : List String :=
  ["int", "float", "str", "bool", "complex", "bytes", "bytearray", "memoryview", "list", "tuple",
    "dict", "set", "frozenset", "range", "type", "object", "NoneType", "mappingproxy",
    "dict_keys", "dict_values", "dict_items"]

/-- The modules that hold the other types; classes of a schema are in the module `fx`. -/
def typeModules : List (String × String) :=
  [("OrderedDict", "collections"), ("defaultdict", "collections"), ("deque", "collections"),
    ("ChainMap", "collections"), ("ndarray", "numpy"), ("Decimal", "decimal"),
    ("Fraction", "fractions"), ("UUID", "uuid"), ("PurePosixPath", "pathlib"),
    ("date", "datetime"), ("datetime", "datetime"), ("time", "datetime"),
    ("timedelta", "datetime"), ("array", "array"), ("int8", "numpy"), ("int16", "numpy"),
    ("int32", "numpy"), ("int64", "numpy"), ("uint8", "numpy"), ("uint16", "numpy"),
    ("uint32", "numpy"), ("uint64", "numpy"), ("float16", "numpy"), ("float32", "numpy"),
    ("float64", "numpy"), ("str_", "numpy"), ("bytes_", "numpy"), ("complex64", "numpy"),
    ("complex128", "numpy"), ("datetime64", "numpy")]

/-- A type's name together with its module, unless it is built in. -/
def qualifiedName (type : String) : String :=
  if builtinTypes.contains type then type
  else match typeModules.lookup type with
    | some m => m ++ "." ++ type
    | none => "fx." ++ type

/-- The types that faults name together with their module. -/
def moduleNamedTypes : List String :=
  ["OrderedDict", "defaultdict", "deque", "ndarray", "Decimal", "date", "datetime", "time",
    "timedelta", "array"]

/-- A type as faults name it. -/
def faultTypeName (type : String) : String :=
  if moduleNamedTypes.contains type then qualifiedName type else type

end Dotpath

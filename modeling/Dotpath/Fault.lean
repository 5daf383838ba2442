import Dotpath.Scalar.Text

/-!
# Faults

What can go wrong outside the control of a walk: a wrong argument of the caller, a container that
refuses an element, a getter or setter that raises an error.  Each cause has a kind and a message;
`Fault.quoted?` is the form in which a message mentions the fault itself.

Some kinds are special cases of others, and what is caught by its kind is caught with them
(`FaultKind.isA`).
-/

namespace Dotpath

/-- The codes of failures. -/
inductive ErrorCode where
  | indexExpected | indexNotAllowed | indexOutOfBounds | noSuchProperty | noSuchKey
  | keyDeserializationFailed | emptySegment | terminalValue | typeNotSupported | typeMismatch
  | notModifiable | exception
  deriving DecidableEq, Repr, Inhabited

/-- The name of a code. -/
def ErrorCode.name : ErrorCode → String
  | indexExpected => "INDEX_EXPECTED"
  | indexNotAllowed => "INDEX_NOT_ALLOWED"
  | indexOutOfBounds => "INDEX_OUT_OF_BOUNDS"
  | noSuchProperty => "NO_SUCH_PROPERTY"
  | noSuchKey => "NO_SUCH_KEY"
  | keyDeserializationFailed => "KEY_DESERIALIZATION_FAILED"
  | emptySegment => "EMPTY_SEGMENT"
  | terminalValue => "TERMINAL_VALUE"
  | typeNotSupported => "TYPE_NOT_SUPPORTED"
  | typeMismatch => "TYPE_MISMATCH"
  | notModifiable => "NOT_MODIFIABLE"
  | exception => "EXCEPTION"

/-- The kinds of fault. -/
inductive FaultKind where
  | typeError | notImplemented | attributeError | valueError | indexError | keyError
  | runtimeError | overflowError | frozenInstance | validation | keyDeserialization
  | noSuchProperty | noAccessibleProperties | illegalAssignment | yaml | serialization
  | recursion | missingFile | directory | notDirectory
  /-- A failure that another walker raises. -/
  | pathWalker (code : ErrorCode)
  deriving DecidableEq, Repr, Inhabited

/-- The kind that a kind is a special case of. -/
def FaultKind.parent? : FaultKind → Option FaultKind
  | frozenInstance => some attributeError
  | validation | serialization => some valueError
  | notImplemented | recursion => some runtimeError
  | _ => none

/-- Whether a fault of this kind is caught where the other kind is. -/
def FaultKind.isA (kind other : FaultKind) : Bool := kind == other || kind.parent? == some other

/-- The name under which a kind of fault is reported. -/
def FaultKind.name : FaultKind → String
  | pathWalker _ => "PathWalkerException"
  | typeError => "TypeError"
  | notImplemented => "NotImplementedError"
  | attributeError => "AttributeError"
  | valueError => "ValueError"
  | indexError => "IndexError"
  | keyError => "KeyError"
  | runtimeError => "RuntimeError"
  | overflowError => "OverflowError"
  | frozenInstance => "FrozenInstanceError"
  | validation => "ValidationError"
  | keyDeserialization => "KeyDeserializationException"
  | noSuchProperty => "NoSuchPropertyError"
  | noAccessibleProperties => "NoAccessiblePropertiesError"
  | illegalAssignment => "IllegalAssignmentError"
  | yaml => "YAMLError"
  | serialization => "PydanticSerializationError"
  | recursion => "RecursionError"
  | missingFile => "FileNotFoundError"
  | directory => "IsADirectoryError"
  | notDirectory => "NotADirectoryError"

/-- The kinds that an outside error can be given by name. -/
def FaultKind.ofName? (name : String) : Option FaultKind :=
  [typeError, notImplemented, attributeError, valueError, indexError, keyError, runtimeError,
    overflowError].find? (·.name == name)

/-- What keeps a file from being opened. -/
inductive FileTrouble where
  | missing
  | isDirectory
  /-- A file stands where the path needs a directory. -/
  | notDirectory
  deriving DecidableEq, Repr, Inhabited

namespace FileTrouble

/-- The number of the trouble. -/
def number : FileTrouble → Nat
  | missing => 2
  | notDirectory => 20
  | isDirectory => 21

/-- The trouble in words. -/
def message : FileTrouble → String
  | missing => "No such file or directory"
  | notDirectory => "Not a directory"
  | isDirectory => "Is a directory"

/-- The kind of the fault that the trouble makes. -/
def kind : FileTrouble → FaultKind
  | missing => .missingFile
  | notDirectory => .notDirectory
  | isDirectory => .directory

end FileTrouble

/-- What an error raised by other code is told: a scalar, or any other value by its text. -/
inductive Argument where
  | scalar (s : Scalar)
  | shown (text : String)
  deriving DecidableEq, Repr, Inhabited

instance : Coe Scalar Argument := ⟨.scalar⟩

namespace Argument

/-- The text of an argument. -/
def text? : Argument → Option String
  | scalar s => s.text?
  | shown t => some t

/-- The quoted text of an argument. -/
def quoted? : Argument → Option String
  | scalar s => s.quoted?
  | shown t => some t

end Argument

/-- A fault, by its cause. -/
inductive Fault where
  /-- A path text, a list of segments or a list of paths is missing. -/
  | missing (what : String)
  | notPathText (type : String)
  | notPath (type : String)
  | notSegment (type : String)
  | notIterable (type : String)
  | noAttribute (type name : String)
  | noSetter (name type : String)
  /-- A plain class attribute stands in the way of an instance without a dictionary. -/
  | readOnlyAttribute (type name : String)
  | notComparable (left right : String)
  | segmentIndex (index : Int) (size : Nat)
  | offsetOutside (offset : Int) (size : Nat)
  | spanOutside (offset length : Int) (size : Nat)
  | emptyShift
  | zeroStep
  | noPaths
  | missingPath
  | emptyKeyedPath
  | emptyTarget
  | outputTooShort (held wanted : Nat)
  | valueCount (given wanted : Nat)
  /-- A text of too many digits is not converted to an integer. -/
  | tooManyDigits (digits : Nat)
  /-- An integer of too many digits is not converted to text. -/
  | unprintableInteger
  | noItemAssignment (type : String)
  | noItems (type : String)
  | notSubscriptable (type : String)
  | notCallable (type : String)
  | noLength (type : String)
  /-- An array without dimensions has no members to count. -/
  | unsized
  | negativeLength
  | lengthOverflow
  | listIndex
  | dequeIndex
  | notInteger (base : Nat) (text : String)
  | notFloat (text : String)
  | unhashable (type : String)
  /-- The container was set up to refuse every assignment. -/
  | refused (kind : FaultKind)
  /-- An array does not hold a value of this type or size. -/
  | element (kind : FaultKind) (message : String)
  | frozenField (name : String)
  /-- A model rejects the value of an assignment. -/
  | invalid
  | noField (type name : String)
  /-- Raised by a getter, a setter, a container of the user or a deserializer. -/
  | raised (kind : FaultKind) (arguments : List Argument)
  /-- A deserializer gives up on a segment. -/
  | keyRejected (reason : Option String)
  | noProperties (type : String) (writing : Bool)
  | noProperty (type : String) (name : String) (writing : Bool)
  | illegalAssignment (message : String)
  | notBool (type shown : String)
  | notChoice (choices : List String) (shown : String)
  | unknownFormat (name : String)
  | unknownCode (name : String)
  | noHandler (role kind : String)
  | handlerTaken (role kind : String)
  /-- The document is not well formed, or a value has no form in the document. -/
  | document
  | unserializable (message : String)
  /-- A value of this type cannot be copied. -/
  | uncopyable (type : String)
  | badDefault
  /-- A document key that is no text, number, truth value or null. -/
  | badDocumentKey (type : String)
  | circularDocument
  | badCharacterCode
  /-- A date, a time or an offset that the calendar does not have. -/
  | calendar (message : String)
  | unopened (trouble : FileTrouble) (path : String)
  | endless (message : String)
  deriving DecidableEq, Repr, Inhabited

namespace Fault

/-- The kind of a fault. -/
def kind : Fault → FaultKind
  | missing _ | emptyShift | zeroStep | noPaths | missingPath | emptyKeyedPath | emptyTarget
  | outputTooShort .. | valueCount .. | tooManyDigits _ | unprintableInteger | noField ..
  | notBool .. | notChoice .. | unknownFormat _ | unknownCode _ | handlerTaken ..
  | negativeLength | notInteger .. | notFloat _ | circularDocument
  | badCharacterCode | calendar _ => .valueError
  | notPathText _ | notPath _ | notSegment _ | notIterable _ | notComparable ..
  | noItemAssignment _ | unhashable _ | notSubscriptable _ | notCallable _ | noLength _ | unsized
  | uncopyable _ | badDefault | badDocumentKey _ => .typeError
  | lengthOverflow => .overflowError
  | noAttribute .. | noSetter .. | readOnlyAttribute .. | noItems _ => .attributeError
  | segmentIndex .. | offsetOutside .. | spanOutside .. | listIndex | dequeIndex => .indexError
  | refused k | element k _ | raised k _ => k
  | frozenField _ => .frozenInstance
  | invalid => .validation
  | keyRejected _ => .keyDeserialization
  | noProperties .. => .noAccessibleProperties
  | noProperty .. => .noSuchProperty
  | illegalAssignment _ => .illegalAssignment
  | noHandler .. => .keyError
  | document => .yaml
  | unserializable _ => .serialization
  | unopened t _ => t.kind
  | endless _ => .recursion

/-- A list of words as messages show it. -/
def wordList (words : List String) : String :=
  "[" ++ Text.commas (words.map Text.quoted) ++ "]"

/-- What a fault tells: one text for most, the given arguments for a raised one. -/
def arguments : Fault → List Argument
  | raised _ args => args
  | keyRejected reason => (reason.map fun r => .scalar (.text r)).toList
  | refused _ => [.scalar (.text "refused")]
  | invalid | document => []
  | f => [.scalar (.text (wording f))]
where
  /-- The wording of the faults that are told by one text. -/
  wording : Fault → String
  | missing what => what ++ " must not be None"
  | notPathText t => "Expected path string, got " ++ t
  | notPath t => "Expected Path or str, got " ++ t
  | notSegment t => "Path segments must be str or None, got " ++ t
  | notIterable t => "'" ++ t ++ "' object is not iterable"
  | noAttribute t n => "'" ++ t ++ "' object has no attribute '" ++ n ++ "'"
  | noSetter n t => "property '" ++ n ++ "' of '" ++ t ++ "' object has no setter"
  | readOnlyAttribute t n => "'" ++ t ++ "' object attribute '" ++ n ++ "' is read-only"
  | notComparable l r => "'<' not supported between instances of '" ++ l ++ "' and '" ++ r ++ "'"
  | segmentIndex i n =>
    "Segment index out of range: " ++ toString i ++ " (path size " ++ toString n ++ ")"
  | offsetOutside o n =>
    "Offset out of range: " ++ toString o ++ " (path size " ++ toString n ++ ")"
  | spanOutside o l n =>
    "Invalid offset/length for path of size " ++ toString n ++ ": offset=" ++ toString o ++
      ", length=" ++ toString l
  | emptyShift => "Cannot shift an empty path"
  | zeroStep => "slice step cannot be zero"
  | noPaths => "At least one path is required"
  | missingPath => "paths must not contain None"
  | emptyKeyedPath => "Empty paths are not allowed with a key deserializer"
  | emptyTarget => "Cannot write to an empty path"
  | outputTooShort h w =>
    "Output holds " ++ toString h ++ " values, " ++ toString w ++ " paths to read"
  | valueCount g w => "Got " ++ toString g ++ " values for " ++ toString w ++ " paths"
  | tooManyDigits n =>
    "Exceeds the limit (" ++ toString maxDigits ++ " digits) for integer string conversion: " ++
      "value has " ++ toString n ++
      " digits; use sys.set_int_max_str_digits() to increase the limit"
  | unprintableInteger =>
    "Exceeds the limit (" ++ toString maxDigits ++ " digits) for integer string conversion; " ++
      "use sys.set_int_max_str_digits() to increase the limit"
  | noItemAssignment t => "'" ++ t ++ "' object does not support item assignment"
  | noItems t => "'" ++ t ++ "' object has no attribute 'items'"
  | notSubscriptable t => "'" ++ t ++ "' object is not subscriptable"
  | notCallable t => "'" ++ t ++ "' object is not callable"
  | noLength t => "object of type '" ++ t ++ "' has no len()"
  | unsized => "len() of unsized object"
  | negativeLength => "__len__() should return >= 0"
  | lengthOverflow => "Python int too large to convert to C ssize_t"
  | listIndex => "list assignment index out of range"
  | dequeIndex => "deque index out of range"
  | notInteger base s =>
    "invalid literal for int() with base " ++ toString base ++ ": " ++
      String.ofList ((Text.quoted s).toList.take 200)
  | notFloat s => "could not convert string to float: " ++ Text.quoted s
  | unhashable t => "unhashable type: '" ++ t ++ "'"
  | frozenField n => "cannot assign to field " ++ Text.quoted n
  | noField t n => "\"" ++ t ++ "\" object has no field \"" ++ n ++ "\""
  | noProperties t writing =>
    t ++ " has no " ++ (if writing then "writable" else "readable") ++ " properties"
  | noProperty t n writing =>
    t ++ " has no " ++ (if writing then "writable" else "readable") ++ " property \"" ++ n ++ "\""
  | uncopyable t =>
    if t = "memoryview" then "cannot pickle memoryview objects"
    else "cannot pickle '" ++ t ++ "' object"
  | badDefault => "first argument must be callable or None"
  | badDocumentKey t => "keys must be str, int, float, bool or None, not " ++ t
  | circularDocument => "Circular reference detected"
  | unopened t path =>
    "[Errno " ++ toString t.number ++ "] " ++ t.message ++ ": " ++ Text.quoted path
  | badCharacterCode => "chr() arg not in range(0x110000)"
  | element _ m | illegalAssignment m | unserializable m | calendar m | endless m => m
  | notBool t shown => "Expected bool-like value, got " ++ t ++ ": " ++ shown
  | notChoice choices shown => "Expected one of " ++ wordList choices ++ ", got " ++ shown
  | unknownFormat n =>
    "Unknown output format '" ++ n ++ "'. Expected one of " ++ wordList ["json", "yaml"]
  | unknownCode n => Text.quoted n ++ " is not a valid ErrorCode"
  | noHandler role k => "No segment " ++ role ++ " registered for '" ++ k ++ "'."
  | handlerTaken role k => "Segment " ++ role ++ " for '" ++ k ++ "' is already registered."
  | _ => ""

/-- The message of a fault: its only argument, or all of them in brackets.  A missing key is
quoted.  There is no message if an argument has no text. -/
def message? (f : Fault) : Option String :=
  match f.arguments with
  | [] => some ""
  | [a] => if f.kind = .keyError then a.quoted? else a.text?
  | args => (args.mapM Argument.quoted?).map fun texts => "(" ++ Text.commas texts ++ ")"

/-- The message of a fault, as far as it has one. -/
def message (f : Fault) : String := f.message?.getD ""

/-- The code of a fault that is a failure of a walker. -/
def walkerCode? (f : Fault) : Option ErrorCode :=
  match f.kind with
  | .pathWalker code => some code
  | _ => none

/-- The reason that a deserializer gives, if it gives one. -/
def reason? (f : Fault) : Option String := f.arguments.head?.bind Argument.text?

/-- The fault as a message mentions it: its kind applied to its arguments.  There is no such form if
an argument has no text. -/
def quoted? (f : Fault) : Option String :=
  (f.arguments.mapM Argument.quoted?).map fun texts =>
    f.kind.name ++ "(" ++ Text.commas texts ++ ")"

end Fault

end Dotpath

import Dotpath.Document.Yaml.Meaning
import Dotpath.Document.Yaml.Pen

/-!
# Styles of scalars

Which styles a text can be written in, which of them is taken, and how each is written.  A text is
written without quotes if it would be read back as itself, then with single quotes, and with double
quotes and escapes if nothing else will do.
-/

namespace Dotpath.Yaml

/-- The styles that a text can be written in. -/
structure Analysis where
  empty : Bool
  multiline : Bool
  plain : Bool
  single : Bool
  block : Bool

/-- A character that can stand in a text without an escape. -/
def isPrintable (c : Char) : Bool :=
  let n := Text.codePoint c
  c == '\n' || (0x20 ≤ n && n ≤ 0x7e) || n == 0x85 ||
    (0xa0 ≤ n && n ≤ 0xfffd && !Text.isHalf n && n != 0xfeff) || (0x10000 ≤ n && n < 0x10ffff)

/-- Whether a character beginning or inside a plain text would be read as a sign.  `rest` is what
follows it. -/
def isIndicator (before : Option Char) (c : Char) (rest : List Char) : Bool :=
  let blankAfter := isBlankOrEnd (rest.headD endMark)
  match before with
  | none =>
    "#,[]\x7b\x7d&*!|>'\"%@\x60".toList.contains c ||
      (blankAfter && (c == '?' || c == ':' || c == '-'))
  | some b => (c == ':' && blankAfter) || (c == '#' && isBlankOrEnd b)

/-- Whether a text has a sign in it. -/
def hasIndicator (before : Option Char) : List Char → Bool
  | [] => false
  | c :: rest => isIndicator before c rest || hasIndicator (some c) rest

/-- Whether a run is followed by one of another kind somewhere. -/
def hasNeighbours (p : Run → Run → Bool) : List Run → Bool
  | a :: b :: rs => p a b || hasNeighbours p (b :: rs)
  | _ => false

/-- The styles that a text can be written in. -/
def analyze (text : String) : Analysis :=
  let cs := text.toList
  if cs.isEmpty then ⟨true, false, true, true, false⟩
  else
    let rs := runs cs
    let isSpaces : Run → Bool := fun | .spaces _ => true | _ => false
    let isBreaks : Run → Bool := fun | .breaks _ => true | _ => false
    let isEdge (r : Option Run) : Bool := r.any fun r => isSpaces r || isBreaks r
    let multiline := rs.any isBreaks
    let trailingSpace := rs.getLast?.any isSpaces
    let breakSpace := hasNeighbours (fun a b => isBreaks a && isSpaces b) rs
    let spaceBreak := hasNeighbours (fun a b => isSpaces a && isBreaks b) rs
    let special := !cs.all isPrintable
    let mark := "---".toList.isPrefixOf cs || "...".toList.isPrefixOf cs
    { empty := false
      multiline
      plain := !(isEdge rs.head? || isEdge rs.getLast? || breakSpace || spaceBreak || special ||
        multiline || mark || hasIndicator none cs)
      single := !(breakSpace || spaceBreak || special)
      block := !(trailingSpace || spaceBreak || special) }

/-! ## Plain and single quoted -/

/-- Writes one run of blanks: a single blank in a full line becomes a line break. -/
def putSpaces (p : Pen) (indent n : Nat) (split : Bool) : Pen × Bool :=
  if n == 1 && p.full && split then (p.indentTo indent, true)
  else (p.put (List.replicate n ' '), false)

/-- Writes the runs of a plain text. -/
def putPlainRuns (indent : Nat) (split : Bool) (p : Pen) : List Run → Pen
  | [] => p
  | .spaces n :: rs =>
    let (p, broken) := putSpaces p indent n split
    putPlainRuns indent split (if broken then p.inLine else p) rs
  | .breaks cs :: rs | .word cs :: rs => putPlainRuns indent split (p.put cs) rs

/-- Writes a plain text. -/
def putPlain (p : Pen) (indent : Nat) (root split : Bool) (cs : List Char) : Pen :=
  let p := { p with unended := p.unended || root }
  if cs.isEmpty then p
  else
    let p := if p.blank then p else p.put [' ']
    putPlainRuns indent split p.inLine (runs cs)

/-- Writes line breaks; the first one twice if it is an ordinary one. -/
def putBreaks (p : Pen) (indent : Nat) (cs : List Char) : Pen :=
  let p := if cs.head? == some '\n' then p.lineBreak '\n' else p
  (cs.foldl Pen.lineBreak p).indentTo indent

/-- Writes the runs of a text between single quotes. -/
def putSingleRuns (indent : Nat) (split first : Bool) (p : Pen) : List Run → Pen
  | [] => p
  | .spaces n :: rs =>
    let inner := !first && !rs.isEmpty
    putSingleRuns indent split false (putSpaces p indent n (split && inner)).1 rs
  | .breaks cs :: rs => putSingleRuns indent split false (putBreaks p indent cs) rs
  | .word cs :: rs =>
    let doubled := cs.flatMap fun c => if c == '\'' then ['\'', '\''] else [c]
    putSingleRuns indent split false (p.put doubled) rs

/-- Writes a text between single quotes. -/
def putSingle (p : Pen) (indent : Nat) (split : Bool) (cs : List Char) : Pen :=
  (putSingleRuns indent split true (p.sign "'" true) (runs cs)).sign "'" false

/-! ## Double quoted -/

/-- The letters of the characters that are escaped by one. -/
def writtenLetters : List (Nat × Char) :=
  [(0, '0'), (7, 'a'), (8, 'b'), (9, 't'), (10, 'n'), (11, 'v'), (12, 'f'), (13, 'r'), (27, 'e'),
    (34, '"'), (92, '\\'), (0x85, 'N'), (0xa0, '_'), (0x2028, 'L'), (0x2029, 'P')]

/-- Whether a character between double quotes is escaped. -/
def needsEscape (c : Char) : Bool :=
  let n := Text.codePoint c
  c == '"' || c == '\\' || n == 0x2028 || n == 0x2029 || n == 0xfeff ||
    !((0x20 ≤ n && n ≤ 0x7e) || (0xa0 ≤ n && n ≤ 0xfffd && !Text.isHalf n))

/-- The escape of a character. -/
def writtenEscape (c : Char) : List Char :=
  let n := Text.codePoint c
  let code (letter : Char) (width : Nat) : List Char :=
    '\\' :: letter :: (Text.hex width n).map Char.toUpper
  match writtenLetters.lookup n with
  | some letter => ['\\', letter]
  | none => if n ≤ 0xff then code 'x' 2 else if n ≤ 0xffff then code 'u' 4 else code 'U' 8

/-- Writes characters between double quotes.  `pending` are those that stand before `cs` and are
not written yet, the last one first; `first` holds at the start of the text. -/
def putDoubleChars (indent : Nat) (split : Bool) (p : Pen) (first : Bool) (pending : List Char) :
    List Char → Pen
  | [] => p.put pending.reverse
  | c :: cs =>
    let escapes := needsEscape c
    let p := if escapes then (p.put pending.reverse).put (writtenEscape c) else p
    let pending := if escapes then [] else pending
    let inner := !first && !cs.isEmpty
    let long := if escapes then p.column > Pen.width + 1
      else p.column + pending.length > Pen.width
    if inner && split && long && (escapes || c == ' ' || pending.isEmpty) then
      let p := ((p.put (pending.reverse ++ ['\\'])).indentTo indent).inLine
      let next := if escapes then cs.head? else some c
      let p := if next == some ' ' then p.put ['\\'] else p
      putDoubleChars indent split p false (if escapes then [] else [c]) cs
    else putDoubleChars indent split p false (if escapes then [] else c :: pending) cs

/-- Writes a text between double quotes. -/
def putDouble (p : Pen) (indent : Nat) (split : Bool) (cs : List Char) : Pen :=
  (putDoubleChars indent split (p.sign "\"" true) true [] cs).sign "\"" false

/-! ## Blocks -/

/-- Writes lines that end in a line break each, as a block. -/
def putBlock (p : Pen) (indent : Nat) (lines : List (List Char)) : Pen :=
  lines.foldl (fun p line => ((p.indentTo indent).put line).lineBreak '\n')
    ((p.sign "|" true).lineBreak '\n')

/-! ## Scalars -/

/-- A style. -/
inductive Style where
  | plain | single | double
  deriving DecidableEq, Repr

/-- The style of a scalar that is not a block. -/
def chooseStyle (tag : Tag) (text : String) (simpleKey : Bool) : Style :=
  let a := analyze text
  if tag == .ofPlain text && a.plain && !(simpleKey && (a.empty || a.multiline)) then .plain
  else if a.single && !(simpleKey && a.multiline) then .single
  else .double

/-- Whether a tag has to be written in front of a scalar in some style. -/
def needsTag (tag : Tag) (style : Style) : Bool := style != .plain && tag != .str

/-- A tag in front of a node. -/
def Tag.short (t : Tag) : String :=
  match names.find? fun (_, u) => u == t with
  | some (n, _) => "!!" ++ n
  | none => ""

/-- Writes a scalar that is not a block. -/
def putScalar (p : Pen) (indent : Nat) (root simpleKey : Bool) (tag : Tag) (text : String) : Pen :=
  let style := chooseStyle tag text simpleKey
  let p := if needsTag tag style then p.sign tag.short true else p
  let cs := text.toList
  match style with
  | .plain => putPlain p indent root (!simpleKey) cs
  | .single => putSingle p indent (!simpleKey) cs
  | .double => putDouble p indent (!simpleKey) cs

end Dotpath.Yaml

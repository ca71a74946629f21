import WorkloadImages.Json.Printer
import WorkloadImages.Yaml.Cursor
import WorkloadImages.Yaml.Scalar

/-!
# YAML text

The text of a value in block style. A text is written as a plain scalar when that reads back as
the same text, else between single or double marks; a text of several lines is written as a
literal block. The items of a sequence are not indented under a key.

## Main definitions

* `Style`, `styleOf`: the form of a text
* `Yaml.print`: the text of a value
-/

namespace WorkloadImages.Yaml

/-! ## What a text holds -/

/-- Whether a character is written as it is. -/
def isPrintable (c : Char) : Bool :=
  let n := c.toNat
  n = 0xA || (0x20 ≤ n && n ≤ 0x7E) || (0xA0 ≤ n && n ≤ 0xD7FF) ||
    (0xE000 ≤ n && n ≤ 0xFFFD && n ≠ 0xFEFF) || 0x10000 ≤ n

/-- Whether one of two characters next to each other in a text is as given, then the other. -/
def hasPair (first second : Char → Bool) : List Char → Bool
  | a :: b :: cs => (first a && second b) || hasPair first second (b :: cs)
  | _ => false

/-- Whether the first character of a text would be taken for an indicator before another one. -/
def beginsIndicator : List Char → Bool
  | [] => false
  | c :: cs =>
    "#,[]\x7b\x7d&*!|>'\"%@`".toList.contains c ||
      ((c = '?' || c = ':' || c = '-') && isGapOrEnd (cs.headD endMark))

/-- Whether a colon before a gap or a number sign after one stands in a text. -/
def holdsIndicator (cs : List Char) : Bool :=
  hasPair (· = ':') isGapOrEnd cs || cs.getLast? = some ':' || hasPair isGapOrEnd (· = '#') cs

/-- Whether a text begins with the mark of the start or the end of a document. -/
def beginsMark (cs : List Char) : Bool :=
  ['-', '-', '-'].isPrefixOf cs || ['.', '.', '.'].isPrefixOf cs

/-- Whether a blank or a line break stands at either end of a text. -/
def hasOuterGap (cs : List Char) : Bool :=
  let isOuter (c : Option Char) := c.any fun c => c = ' ' || isBreak c
  isOuter cs.head? || isOuter cs.getLast?

/-- Whether a text can only stand between double marks. -/
def needsDouble (cs : List Char) : Bool :=
  !cs.all isPrintable || hasPair (· = ' ') isBreak cs

/-- Whether a text can stand between single marks. -/
def allowsSingle (cs : List Char) : Bool :=
  !needsDouble cs && !hasPair isBreak (· = ' ') cs

/-- Whether a text can be a plain scalar. -/
def allowsPlain (cs : List Char) : Bool :=
  allowsSingle cs && !cs.any isBreak && !hasOuterGap cs && !beginsIndicator cs &&
    !holdsIndicator cs && !beginsMark cs

/-- Whether a text can be a literal block. -/
def allowsLiteral (cs : List Char) : Bool :=
  !needsDouble cs && !cs.isEmpty && cs.getLast? ≠ some ' '

/-- Whether a text is kept apart from what a plain scalar stands for: from another value, or from
digits that some readers take for a number. -/
def needsMarks (cs : List Char) : Bool := Scalar.isZeroLed cs || Scalar.ofPlain cs ≠ .text cs

/-! ## Forms of a text -/

/-- The form of a text. -/
inductive Style where
  /-- As it is. -/
  | plain
  /-- Between single marks. -/
  | single
  /-- Between double marks. -/
  | double
  /-- In lines of its own. -/
  | literal
  deriving Repr, DecidableEq

/-- The form of a text. -/
def styleOf (cs : List Char) : Style :=
  -- A literal block cannot show blanks at the end of its text.
  if cs.contains '\n' then if allowsLiteral cs then .literal else .double
  else if !needsMarks cs && allowsPlain cs then .plain
  else if allowsSingle cs then .single
  else .double

/-- The lines of a text with breaks of their own kinds; the lines after a break are indented, the
empty ones are not. -/
def indentLines (indent : Nat) : Bool → List Char → List Char
  | _, [] => []
  | fresh, c :: cs =>
    if isBreak c then c :: indentLines indent true cs
    else if fresh then List.replicate indent ' ' ++ c :: indentLines indent false cs
    else c :: indentLines indent false cs

/-- A text between single marks: a mark is written twice. -/
def printSingle (indent : Nat) (cs : List Char) : List Char :=
  let doubled := cs.flatMap fun c => if c = '\'' then ['\'', '\''] else [c]
  -- After a line break at the end the closing mark is indented as a line would be.
  let closing := if cs.getLast?.any isBreak then List.replicate indent ' ' else []
  '\'' :: indentLines indent false doubled ++ closing ++ ['\'']

/-- A number in uppercase hexadecimal digits, so many of them. -/
def hexDigits (width n : Nat) : List Char :=
  let digits := (Nat.toDigits 16 n).map Char.toUpper
  List.replicate (width - digits.length) '0' ++ digits

/-- A character between double marks. -/
def escapeDouble (c : Char) : List Char :=
  let short : List (Char × Char) :=
    [('\x00', '0'), ('\x07', 'a'), ('\x08', 'b'), ('\t', 't'), ('\n', 'n'), ('\x0b', 'v'),
      ('\x0c', 'f'), ('\r', 'r'), ('\x1b', 'e'), ('"', '"'), ('\\', '\\'), ('\u0085', 'N'),
      ('\u2028', 'L'), ('\u2029', 'P')]
  if isPrintable c && !isBreak c && c ≠ '"' && c ≠ '\\' then [c]
  else match short.lookup c with
    | some letter => ['\\', letter]
    | none =>
      let n := c.toNat
      if n ≤ 0xFF then '\\' :: 'x' :: hexDigits 2 n
      else if n ≤ 0xFFFF then '\\' :: 'u' :: hexDigits 4 n
      else '\\' :: 'U' :: hexDigits 8 n

/-- A text between double marks. -/
def printDouble (cs : List Char) : List Char := '"' :: cs.flatMap escapeDouble ++ ['"']

/-- The header of a literal block: an indentation when the text begins with a blank or a line
break, and a sign unless the text ends with a single line break. -/
def literalHeader (cs : List Char) : List Char :=
  let indentation := if cs.head?.any fun c => c = ' ' || isBreak c then ['2'] else []
  let sign := match cs.reverse with
    | [] => ['-']
    | last :: before =>
      if !isBreak last then ['-']
      else match before with
        | [] => ['+']
        | c :: _ => if isBreak c then ['+'] else []
  '|' :: indentation ++ sign

/-- A text in its form, and the line break after it. A literal block that ends with a line break
needs no other. -/
def printText (indent : Nat) (s : String) : List Char :=
  let cs := s.toList
  match styleOf cs with
  | .plain => cs ++ ['\n']
  | .single => printSingle indent cs ++ ['\n']
  | .double => printDouble cs ++ ['\n']
  | .literal =>
    literalHeader cs ++ '\n' :: indentLines indent true cs ++
      if cs.getLast?.any isBreak then [] else ['\n']

/-! ## Values -/

/-- A number has an exponent from `1e16` up and below `0.00001`. -/
def decimalLayout : DecimalLayout := ⟨-4, 16, false⟩

/-- A level of indentation. -/
def levelWidth : Nat := 2

/-- The blanks at the start of a line. -/
def blanks (indent : Nat) : List Char := List.replicate indent ' '

/-- The greatest number of bytes of a key that stands before its colon on one line. -/
def maxSimpleKey : Nat := 128

/-- Whether a key stands before its colon on one line. -/
def isSimpleKey (key : String) : Bool :=
  !key.toList.any isBreak && key.utf8ByteSize ≤ maxSimpleKey

/-- A simple key in its form. -/
def printSimpleKey (key : String) : List Char :=
  let cs := key.toList
  match styleOf cs with
  | .plain => cs
  | .single => printSingle 0 cs
  | _ => printDouble cs

mutual

/-- A value after an indicator on its line, and the line break after it. The lines of a container
begin at the column `indent + 2`, and the first one follows the indicator. -/
def printInline (indent : Nat) : Json → List Char
  | .null => " null\n".toList
  | .bool true => " true\n".toList
  | .bool false => " false\n".toList
  | .int n => ' ' :: (toString n).toList ++ ['\n']
  | .float x => ' ' :: decimalLayout.write x ++ ['\n']
  | .str s => ' ' :: printText (indent + levelWidth) s
  | .arr items => ' ' :: printItems (indent + levelWidth) items
  | .obj fields => ' ' :: printFields (indent + levelWidth) fields
termination_by structural j => j

/-- The items of a sequence at a column: the first one follows what is on the line. -/
def printItems (indent : Nat) : List Json → List Char
  | [] => "[]\n".toList
  | [item] => '-' :: printInline indent item
  | item :: next :: rest =>
    '-' :: printInline indent item ++ blanks indent ++ printItems indent (next :: rest)
termination_by structural items => items

/-- The fields of a mapping at a column: the first one follows what is on the line. -/
def printFields (indent : Nat) : List (String × Json) → List Char
  | [] => "\x7b\x7d\n".toList
  | [field] => printField indent field
  | field :: next :: rest =>
    printField indent field ++ blanks indent ++ printFields indent (next :: rest)
termination_by structural fields => fields

/-- A field of a mapping at a column. After a simple key the lines of a container are lines of
their own. -/
def printField (indent : Nat) : String × Json → List Char
  | (key, value) =>
    -- A long key, or one of several lines, has a mark before it and its colon on a line below.
    if !isSimpleKey key then
      "? ".toList ++ printText (indent + levelWidth) key ++ blanks indent ++ ':' ::
        printInline indent value
    else
      printSimpleKey key ++ ':' ::
        match value with
        | .arr (item :: items) => '\n' :: blanks indent ++ printItems indent (item :: items)
        | .obj (field :: fields) =>
          '\n' :: blanks (indent + levelWidth) ++
            printFields (indent + levelWidth) (field :: fields)
        | value => printInline indent value
termination_by structural field => field

end

/-- The text of a value, with a line break at its end. -/
def print (value : Json) : String :=
  String.ofList <|
    match value with
    | .arr items => printItems 0 items
    | .obj fields => printFields 0 fields
    | .str s => printText levelWidth s
    | value => (printInline 0 value).drop 1

end WorkloadImages.Yaml

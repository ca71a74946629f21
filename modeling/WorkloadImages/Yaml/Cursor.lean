import WorkloadImages.Text.Bytes

/-!
# YAML characters and places in a text

The classes of characters that YAML tells apart, and a text read from a place on, which is counted
in bytes, in lines, and in the characters of a line. A line ends with a carriage return, a line
feed, both, or one of three characters beyond ASCII; the first four forms all stand for a line
feed.

## Main definitions

* `isAllowed`, `isBreak`, `isBlank`, `isGapOrEnd`: classes of characters
* `Cursor`: the rest of a text and its place
-/

namespace WorkloadImages.Yaml

/-! ## Characters -/

/-- Whether a character may occur in a text at all. -/
def isAllowed (c : Char) : Bool :=
  let n := c.toNat
  n = 0x9 || n = 0xA || n = 0xD || (0x20 ≤ n && n ≤ 0x7E) || n = 0x85 ||
    (0xA0 ≤ n && n ≤ 0xD7FF) || (0xE000 ≤ n && n ≤ 0xFFFD) || 0x10000 ≤ n

/-- Whether a character ends a line. -/
def isBreak (c : Char) : Bool :=
  c = '\r' || c = '\n' || c = '\u0085' || c = '\u2028' || c = '\u2029'

/-- Whether a character is a blank or a tab. -/
def isBlank (c : Char) : Bool := c = ' ' || c = '\t'

/-- The character that is seen past the end of a text; it is not allowed within. -/
def endMark : Char := '\x00'

/-- Whether a character is a line break or past the end. -/
def isBreakOrEnd (c : Char) : Bool := isBreak c || c = endMark

/-- Whether a character is a blank, a line break or past the end. -/
def isGapOrEnd (c : Char) : Bool := isBlank c || isBreakOrEnd c

/-- The byte order mark, which may stand at the start of any line. -/
def byteOrderMark : Char := '\ufeff'

/-- Whether a character may stand in a name. -/
def isWordChar (c : Char) : Bool := c.isAlphanum || c = '-' || c = '_'

/-- Whether a character has a meaning in flow collections. -/
def isFlowIndicator (c : Char) : Bool :=
  c = ',' || c = '[' || c = ']' || c = '\x7b' || c = '\x7d'

/-! ## Places -/

/-- The rest of a text, and its place from the start of the text. -/
structure Cursor where
  /-- The length of the whole text, which bounds what is left to read. -/
  length : Nat
  /-- The characters from the place on. -/
  rest : List Char
  /-- The bytes before the place. -/
  index : Nat
  /-- The lines before the place. -/
  line : Nat
  /-- The characters of the line before the place. -/
  column : Nat

namespace Cursor

/-- The start of a text. -/
def start (text : List Char) : Cursor := ⟨text.length, text, 0, 0, 0⟩

/-- The character that is `k` places on. -/
def peek (c : Cursor) (k : Nat) : Char := (c.rest.drop k).headD endMark

/-- The next character. -/
def next (c : Cursor) : Char := c.rest.headD endMark

/-- The place after `n` characters of the line. -/
def skip (c : Cursor) (n : Nat) : Cursor :=
  { c with
    rest := c.rest.drop n
    index := c.index + Text.byteLength (c.rest.take n)
    column := c.column + n }

/-- The characters of a class from the place on, and the place after them. The class holds no line
break. -/
def takeWhile (c : Cursor) (p : Char → Bool) : List Char × Cursor :=
  let taken := c.rest.takeWhile p
  (taken, c.skip taken.length)

/-- The place after the characters of a class. -/
def skipWhile (c : Cursor) (p : Char → Bool) : Cursor := (c.takeWhile p).2

/-- The start of the next line, after `n` characters. -/
def nextLine (c : Cursor) (n : Nat) : Cursor :=
  { c with
    rest := c.rest.drop n
    index := c.index + Text.byteLength (c.rest.take n)
    line := c.line + 1
    column := 0 }

/-- The line break at the place, as what it stands for, and the start of the next line. -/
def takeBreak (c : Cursor) : List Char × Cursor :=
  match c.rest with
  | '\r' :: '\n' :: _ => (['\n'], c.nextLine 2)
  | x :: _ =>
    if x = '\u2028' ∨ x = '\u2029' then ([x], c.nextLine 1)
    else if isBreak x then (['\n'], c.nextLine 1)
    else ([], c)
  | [] => ([], c)

/-- The start of the next line, at a line break. -/
def skipBreak (c : Cursor) : Cursor := c.takeBreak.2

/-- Whether the mark of the start or the end of a document is at the place: three characters at the
start of a line, with a gap after them. -/
def atMark (c : Cursor) (mark : List Char) : Bool :=
  c.column = 0 && mark.isPrefixOf c.rest && isGapOrEnd (c.peek 3)

/-- Whether a document starts at the place. -/
def atDocumentStart (c : Cursor) : Bool := c.atMark ['-', '-', '-']

/-- Whether a document ends at the place. -/
def atDocumentEnd (c : Cursor) : Bool := c.atMark ['.', '.', '.']

/-- Whether a document starts or ends at the place. -/
def atDocumentMark (c : Cursor) : Bool := c.atDocumentStart || c.atDocumentEnd

end Cursor

end WorkloadImages.Yaml

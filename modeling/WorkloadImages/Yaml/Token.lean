import WorkloadImages.Yaml.ScalarText

/-!
# YAML tokens

A text as a list of tokens. Where a block begins and ends is read off the indentation. A key is
often known as one only when the colon after it is reached: the tokens for the key and for the
mapping that it begins are then put in before it.

## Main definitions

* `Token`: the tokens
* `Lexer`: a text that is being read, with its open blocks and possible keys
* `Token.read?`: the tokens of a text
-/

namespace WorkloadImages.Yaml

/-- A token of a text. -/
inductive Token where
  /-- The version of the language, for the next document. -/
  | version (major minor : Nat)
  /-- What a tag handle stands for in the next document, in bytes. -/
  | handle (name : List Char) (start : List UInt8)
  /-- The start of a document. -/
  | documentStart
  /-- The end of a document. -/
  | documentEnd
  /-- The start of a block sequence. -/
  | blockSequence
  /-- The start of a block mapping. -/
  | blockMapping
  /-- The end of a block sequence or mapping. -/
  | blockEnd
  /-- The start of a flow sequence. -/
  | flowSequence
  /-- The end of a flow sequence. -/
  | flowSequenceEnd
  /-- The start of a flow mapping. -/
  | flowMapping
  /-- The end of a flow mapping. -/
  | flowMappingEnd
  /-- The mark of an item of a block sequence. -/
  | blockEntry
  /-- The mark between two items of a flow collection. -/
  | flowEntry
  /-- What comes next is a key. -/
  | key
  /-- What comes next is the value of a key. -/
  | value
  /-- A node that stands elsewhere. -/
  | aliasOf (name : List Char)
  /-- The name of the next node. -/
  | anchor (name : List Char)
  /-- The tag of the next node: a handle, empty for a whole tag, and the rest in bytes. -/
  | tag (handle : List Char) (rest : List UInt8)
  /-- A scalar, plain or not. -/
  | scalar (plain : Bool) (text : List Char)
  deriving Repr, DecidableEq

/-! ## Tags and directives -/

/-- Whether a character may stand in a tag; in a whole one or in a directive also a comma and
brackets. -/
def isTagChar (whole : Bool) (c : Char) : Bool :=
  isWordChar c || ";/?:@&=+$.%!~*'()".toList.contains c || (whole && ",[]".toList.contains c)

/-- The byte that a percent sign and two hexadecimal digits write, at the front of a text. -/
def escapedByte? : List Char → Option (Nat × List Char)
  | '%' :: a :: b :: cs => (Text.hexDigitsValue? [a, b]).map (·, cs)
  | _ => none

/-- The number of bytes of a character that begins with a byte. -/
def sequenceLength? (byte : Nat) : Option Nat :=
  if byte < 0x80 then some 1
  else if 0xC0 ≤ byte ∧ byte < 0xE0 then some 2
  else if 0xE0 ≤ byte ∧ byte < 0xF0 then some 3
  else if 0xF0 ≤ byte ∧ byte < 0xF8 then some 4
  else none

/-- So many escaped bytes that continue a character, and the rest. -/
def continuation? : Nat → List Char → Option (List UInt8 × List Char)
  | 0, cs => some ([], cs)
  | n + 1, cs =>
    match escapedByte? cs with
    | some (byte, cs) =>
      if 0x80 ≤ byte ∧ byte < 0xC0 then
        (continuation? n cs).map fun (bytes, cs) => (UInt8.ofNat byte :: bytes, cs)
      else none
    | none => none

/-- The bytes of the part of a tag at the front of a text, and the rest. -/
def readTagBytes (whole : Bool) : Nat → List Char → Option (List UInt8 × List Char)
  | 0, _ => none
  | _, [] => some ([], [])
  | fuel + 1, c :: cs =>
    if c = '%' then do
      let (byte, cs) ← escapedByte? (c :: cs)
      let (more, cs) ← continuation? ((← sequenceLength? byte) - 1) cs
      let (bytes, cs) ← readTagBytes whole fuel cs
      return (UInt8.ofNat byte :: more ++ bytes, cs)
    else if isTagChar whole c then
      (readTagBytes whole fuel cs).map fun (bytes, cs) => (UInt8.ofNat c.toNat :: bytes, cs)
    else some ([], c :: cs)

/-- The part of a tag at a place, up to a zero byte, and the place after it. -/
def readTagRest (whole : Bool) (c : Cursor) : Option (List UInt8 × Cursor) :=
  (readTagBytes whole (c.length + 1) c.rest).map fun (bytes, rest) =>
    (bytes.takeWhile (· ≠ 0), c.skip (c.rest.length - rest.length))

/-- The part of a tag at a place that is not empty, and the place after it. -/
def readTagPart (whole : Bool) (c : Cursor) : Option (List UInt8 × Cursor) :=
  match readTagRest whole c with
  | some (bytes, after) => if after.index = c.index then none else some (bytes, after)
  | none => none

/-- The handle of a tag at a place: an exclamation mark, a word, and another mark if one follows. -/
def readHandle (c : Cursor) : Option (List Char × Cursor) :=
  if c.next ≠ '!' then none
  else
    let (word, after) := (c.skip 1).takeWhile isWordChar
    if after.next = '!' then some ('!' :: word ++ ['!'], after.skip 1)
    else some ('!' :: word, after)

/-- The bytes of ASCII characters. -/
def asciiBytes (cs : List Char) : List UInt8 := cs.map fun c => UInt8.ofNat c.toNat

/-- The tag at a place, and the place after it. A lone exclamation mark is a whole tag. -/
def readTag (inFlow : Bool) (c : Cursor) : Option (Token × Cursor) := do
  let (token, c) ←
    if c.peek 1 = '<' then do
      let (bytes, c) ← readTagPart true (c.skip 2)
      if c.next = '>' then some (Token.tag [] bytes, c.skip 1) else none
    else do
      let (handle, c) ← readHandle c
      -- Without a second mark the word is the front of the tag and no handle.
      if 1 < handle.length ∧ handle.getLast? = some '!' then
        let (bytes, c) ← readTagPart false c
        some (Token.tag handle bytes, c)
      else
        let (bytes, c) ← readTagRest false c
        match asciiBytes (handle.drop 1) ++ bytes with
        | [] => some (Token.tag [] (asciiBytes ['!']), c)
        | bytes => some (Token.tag ['!'] bytes, c)
  if isGapOrEnd c.next || (inFlow && c.next = ',') then some (token, c) else none

/-- The number of a version at a place, of nine digits at most, and the place after it. -/
def readVersionNumber (c : Cursor) : Option (Nat × Cursor) :=
  let (digits, c) := c.takeWhile Char.isDigit
  if digits.isEmpty || 9 < digits.length then none else some (Text.digitsValue digits, c)

/-- The directive at a place, and the start of the next line. -/
def readDirective (c : Cursor) : Option (Token × Cursor) := do
  let (name, c) := (c.skip 1).takeWhile isWordChar
  if name.isEmpty || !isGapOrEnd c.next then none
  else
    let body := c.skipWhile isBlank
    let (token, c) ←
      if name = "YAML".toList then do
        let (major, c) ← readVersionNumber body
        if c.next ≠ '.' then none
        else
          let (minor, c) ← readVersionNumber (c.skip 1)
          some (Token.version major minor, c)
      else if name = "TAG".toList then do
        let (handle, c) ← readHandle body
        if 1 < handle.length ∧ handle.getLast? ≠ some '!' then none
        else if !isBlank c.next then none
        else
          let (bytes, c) ← readTagPart true (c.skipWhile isBlank)
          if isGapOrEnd c.next then some (Token.handle handle bytes, c) else none
      else none
    let c := c.skipWhile isBlank
    let c := if c.next = '#' then c.skipWhile (!isBreakOrEnd ·) else c
    if isBreakOrEnd c.next then some (token, c.skipBreak) else none

/-- The name of an anchor or alias from after its mark, and the place after it. -/
def readAnchorName (c : Cursor) : Option (List Char × Cursor) :=
  let (name, c) := (c.skip 1).takeWhile isWordChar
  if name.isEmpty then none
  else if isGapOrEnd c.next || "?:,]\x7d%@`".toList.contains c.next then some (name, c)
  else none

/-! ## Blocks and keys -/

/-- A place where a key may have begun. -/
structure PossibleKey where
  /-- The number of tokens before it. -/
  tokens : Nat
  /-- The place. -/
  start : Cursor
  /-- Whether nothing but a key can stand there. -/
  required : Bool

/-- A text that is being read. -/
structure Lexer where
  /-- Where reading has come to. -/
  cursor : Cursor
  /-- The tokens so far, the last one first. -/
  tokens : List Token
  /-- The number of tokens so far. -/
  count : Nat
  /-- The indentation of the innermost open block, -1 outside of all. -/
  indent : Int
  /-- The indentations around it, innermost first. -/
  outer : List Int
  /-- Whether a key may begin at the next token. -/
  keyAllowed : Bool
  /-- The possible key at this level of flow collections. -/
  candidate : Option PossibleKey
  /-- The possible keys of the levels around it, innermost first. -/
  candidates : List (Option PossibleKey)

namespace Lexer

/-- Reading of a text before it has begun. -/
def start (text : List Char) : Lexer :=
  { cursor := .start text, tokens := [], count := 0, indent := -1, outer := [],
    keyAllowed := true, candidate := none, candidates := [] }

/-- Whether reading is inside a flow collection. -/
def inFlow (l : Lexer) : Bool := !l.candidates.isEmpty

/-- Reading after one more token. -/
def push (l : Lexer) (token : Token) : Lexer :=
  { l with tokens := token :: l.tokens, count := l.count + 1 }

/-- Reading after a token of so many characters. -/
def pushMark (l : Lexer) (token : Token) (length : Nat) : Lexer :=
  { l.push token with cursor := l.cursor.skip length }

/-- Reading with a token put in after the first `position` tokens. -/
def insert (l : Lexer) (position : Nat) (token : Token) : Lexer :=
  { l with tokens := l.tokens.insertIdx (l.count - position) token, count := l.count + 1 }

/-- A block begins at a column that is deeper than the innermost open one: its token is put in after
the first `position` tokens. In a flow collection there are no blocks. -/
def openBlock (l : Lexer) (column : Nat) (position : Nat) (token : Token) : Lexer :=
  if l.inFlow || (column : Int) ≤ l.indent then l
  else { l.insert position token with indent := column, outer := l.indent :: l.outer }

/-- The blocks around, innermost first, end up to those whose indentation is within a column. -/
def closeBlocksFrom (column : Int) : List Int → Lexer → Lexer
  | [], l => l
  | around :: outer, l =>
    if l.indent ≤ column then l
    else closeBlocksFrom column outer { l.push .blockEnd with indent := around, outer := outer }

/-- The blocks that are deeper than a column end; in a flow collection none does. -/
def closeBlocks (l : Lexer) (column : Int) : Lexer :=
  if l.inFlow then l else closeBlocksFrom column l.outer l

/-- The possible key at this level turns out to be none. -/
def dropKey (l : Lexer) : Option Lexer :=
  match l.candidate with
  | none => some l
  | some key => if key.required then none else some { l with candidate := none }

/-- A key may begin here, if keys are allowed. -/
def saveKey (l : Lexer) : Option Lexer :=
  if l.keyAllowed then
    -- At the indentation of an open block there is only room for another key.
    let required := !l.inFlow && l.indent = l.cursor.column
    l.dropKey.map fun l => { l with candidate := some ⟨l.count, l.cursor, required⟩ }
  else some l

/-- The greatest number of bytes of a key and the gap after it. -/
def maxKeyLength : Nat := 1024

/-- A possible key that is on an earlier line or too long is none. -/
def dropStale (l : Lexer) (key : Option PossibleKey) : Option (Option PossibleKey) :=
  match key with
  | none => some none
  | some k =>
    if k.start.line < l.cursor.line ∨ k.start.index + maxKeyLength < l.cursor.index then
      if k.required then none else some none
    else some (some k)

/-- The possible keys that are on an earlier line or too long are none. -/
def dropStaleKeys (l : Lexer) : Option Lexer := do
  return { l with
    candidate := ← l.dropStale l.candidate
    candidates := ← l.candidates.mapM l.dropStale }

/-! ## Single tokens -/

/-- The place of the next token, and whether a key may begin there: blanks, comments and line breaks
are passed over, and in a block a key may begin after a line break. So is one byte order mark at the
start of a line, and a tab where it cannot be taken for indentation. -/
def nextPlace (inFlow : Bool) : Nat → Bool → Cursor → Bool × Cursor
  | 0, keyAllowed, c => (keyAllowed, c)
  | fuel + 1, keyAllowed, c =>
    -- A byte order mark counts as a column, so what follows it is indented by one.
    let c := if c.column = 0 ∧ c.next = byteOrderMark then c.skip 1 else c
    let c := c.skipWhile fun x => x = ' ' || ((inFlow || !keyAllowed) && x = '\t')
    let c := if c.next = '#' then c.skipWhile (!isBreakOrEnd ·) else c
    if isBreak c.next then nextPlace inFlow fuel (keyAllowed || !inFlow) c.skipBreak
    else (keyAllowed, c)

/-- The start or end of a document, or a directive: all blocks end and no key may follow. -/
def betweenDocuments (l : Lexer) (token : Token) (after : Cursor) : Option Lexer :=
  (l.closeBlocks (-1)).dropKey.map fun l =>
    { l.push token with keyAllowed := false, cursor := after }

/-- A flow collection begins. It may be a key. -/
def openFlow (l : Lexer) (token : Token) : Option Lexer :=
  l.saveKey.map fun l =>
    { l.pushMark token 1 with
      candidate := none, candidates := l.candidate :: l.candidates, keyAllowed := true }

/-- A flow collection ends, if one is open. -/
def closeFlow (l : Lexer) (token : Token) : Option Lexer :=
  l.dropKey.map fun l =>
    match l.candidates with
    | [] => { l.pushMark token 1 with keyAllowed := false }
    | key :: keys =>
      { l.pushMark token 1 with candidate := key, candidates := keys, keyAllowed := false }

/-- A mark between items: a key may follow. -/
def entry (l : Lexer) (token : Token) : Option Lexer :=
  l.dropKey.map fun l => { l.pushMark token 1 with keyAllowed := true }

/-- The mark of an item of a block sequence, which may begin one. -/
def blockEntry (l : Lexer) : Option Lexer :=
  if l.inFlow then l.entry .blockEntry
  else if l.keyAllowed then
    (l.openBlock l.cursor.column l.count .blockSequence).entry .blockEntry
  else none

/-- The mark of a key, which may begin a block mapping. -/
def keyMark (l : Lexer) : Option Lexer :=
  if !l.inFlow && !l.keyAllowed then none
  else (l.openBlock l.cursor.column l.count .blockMapping).dropKey.map fun l =>
    { l.pushMark .key 1 with keyAllowed := !l.inFlow }

/-- The mark of a value. A possible key before it is a key, and may begin a block mapping. -/
def valueMark (l : Lexer) : Option Lexer :=
  match l.candidate with
  | some key =>
    -- The start of the mapping is put in at the same position, and so before the key.
    let l := (l.insert key.tokens .key).openBlock key.start.column key.tokens .blockMapping
    some { l.pushMark .value 1 with candidate := none, keyAllowed := false }
  | none =>
    if !l.inFlow && !l.keyAllowed then none
    else
      let l := l.openBlock l.cursor.column l.count .blockMapping
      some { l.pushMark .value 1 with keyAllowed := !l.inFlow }

/-- A token that belongs to a node, after which no key may begin; it may itself begin a key. -/
def nodePart (l : Lexer) (read : Cursor → Option (Token × Cursor)) : Option Lexer := do
  let l ← l.saveKey
  let (token, after) ← read l.cursor
  return { l.push token with cursor := after, keyAllowed := false }

/-- A plain scalar; a key may follow on a new line. -/
def plainScalar (l : Lexer) : Option Lexer := do
  let l ← l.saveKey
  let (text, after, broken) ← readPlain l.inFlow (l.indent + 1) l.cursor
  return { l.push (.scalar true text) with cursor := after, keyAllowed := broken }

/-- A block scalar; a key may follow. -/
def blockScalar (l : Lexer) (literal : Bool) : Option Lexer := do
  let l ← l.dropKey
  let (text, after) ← readBlock literal l.indent l.cursor
  return { l.push (.scalar false text) with cursor := after, keyAllowed := true }

/-- Whether a plain scalar begins with a character before another one. -/
def beginsPlain (inFlow : Bool) (c next : Char) : Bool :=
  if c = '-' then !isBlank next
  else if c = '?' || c = ':' then !inFlow && !isGapOrEnd next
  else !(isGapOrEnd c || ",[]\x7b\x7d#&*!|>'\"%@`".toList.contains c)

/-- The token at the place, which is not the end of the text. -/
def token (l : Lexer) : Option Lexer :=
  let c := l.cursor
  let after := c.peek 1
  -- At the start of a line directives and document marks come before all other tokens.
  if c.column = 0 && c.next = '%' then
    (readDirective c).bind fun (token, after) => l.betweenDocuments token after
  else if c.atDocumentStart then l.betweenDocuments .documentStart (c.skip 3)
  else if c.atDocumentEnd then l.betweenDocuments .documentEnd (c.skip 3)
  else if c.next = '[' then l.openFlow .flowSequence
  else if c.next = '\x7b' then l.openFlow .flowMapping
  else if c.next = ']' then l.closeFlow .flowSequenceEnd
  else if c.next = '\x7d' then l.closeFlow .flowMappingEnd
  else if c.next = ',' then l.entry .flowEntry
  else if c.next = '-' && isGapOrEnd after then l.blockEntry
  else if c.next = '?' && (l.inFlow || isGapOrEnd after) then l.keyMark
  else if c.next = ':' && (l.inFlow || isGapOrEnd after) then l.valueMark
  else if c.next = '*' then
    l.nodePart fun c => (readAnchorName c).map fun (name, c) => (.aliasOf name, c)
  else if c.next = '&' then
    l.nodePart fun c => (readAnchorName c).map fun (name, c) => (.anchor name, c)
  else if c.next = '!' then l.nodePart (readTag l.inFlow)
  else if c.next = '|' && !l.inFlow then l.blockScalar true
  else if c.next = '>' && !l.inFlow then l.blockScalar false
  else if c.next = '\'' then
    l.nodePart fun c => (readQuoted true c).map fun (text, c) => (.scalar false text, c)
  else if c.next = '"' then
    l.nodePart fun c => (readQuoted false c).map fun (text, c) => (.scalar false text, c)
  else if beginsPlain l.inFlow c.next after then l.plainScalar
  else none

/-- The tokens of the rest of the text after those so far. -/
def tokens? : Nat → Lexer → Option (List Token)
  | 0, _ => none
  | fuel + 1, l => do
    let (keyAllowed, cursor) :=
      nextPlace l.inFlow (l.cursor.length + 1) l.keyAllowed l.cursor
    -- A key that has become impossible is given up before the next token is looked at.
    let l ← dropStaleKeys { l with keyAllowed, cursor }
    let l := l.closeBlocks cursor.column
    if cursor.rest.isEmpty then
      -- The open blocks end with the text.
      let l ← (l.closeBlocks (-1)).dropKey
      return l.tokens.reverse
    else
      let l ← l.token
      tokens? fuel l

end Lexer

/-- The tokens of a text, if it can be divided into tokens. Every step but the last passes over a
character at least. -/
def Token.read? (text : List Char) : Option (List Token) :=
  if text.all isAllowed then (Lexer.start text).tokens? (text.length + 1) else none

end WorkloadImages.Yaml

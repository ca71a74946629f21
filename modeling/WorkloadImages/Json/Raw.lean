import WorkloadImages.Json.Literal

/-!
# JSON text as a tree

A text in the grammar of JSON as a tree of its literals. Nothing is said yet about what they stand
for: a field may occur twice, a string may hold half of a surrogate pair, and nesting has no limit.

## Main definitions

* `Raw`: the trees
* `Raw.read?`: the tree of a text
-/

namespace WorkloadImages.Json

/-- The tree of a JSON text. -/
inductive Raw where
  | null
  /-- The word `true` or `false`. -/
  | bool (value : Bool)
  | number (numeral : Numeral)
  | string (pieces : List Piece)
  | array (items : List Raw)
  | object (fields : List (List Piece × Raw))

namespace Raw

/-- Whether a character may stand between literals. -/
def isSpace (c : Char) : Bool := c = ' ' || c = '\t' || c = '\n' || c = '\r'

/-- A text from its first character that is no space. -/
def skipSpace (cs : List Char) : List Char := cs.dropWhile isSpace

/-- What follows a word at the front of a text. -/
def afterWord? (word : List Char) (cs : List Char) : Option (List Char) :=
  if word.isPrefixOf cs then some (cs.drop word.length) else none

/-- The literal at the front of a text that is no array and no object, and the rest. -/
def readScalar : List Char → Option (Raw × List Char)
  | 'n' :: cs => (afterWord? ['u', 'l', 'l'] cs).map (null, ·)
  | 't' :: cs => (afterWord? ['r', 'u', 'e'] cs).map (bool true, ·)
  | 'f' :: cs => (afterWord? ['a', 'l', 's', 'e'] cs).map (bool false, ·)
  | '"' :: cs => (readString cs).map fun (pieces, cs) => (string pieces, cs)
  | cs => (readNumeral cs).map fun (numeral, cs) => (number numeral, cs)

mutual

/-- The value at the front of a text, and the rest; `fuel` bounds the calls in one another. -/
def readValue : Nat → List Char → Option (Raw × List Char)
  | 0, _ => none
  | fuel + 1, cs =>
    match skipSpace cs with
    | '[' :: cs =>
      -- An item has to follow a comma, so only an empty container ends here.
      match skipSpace cs with
      | ']' :: cs => some (array [], cs)
      | cs => (readItems fuel cs).map fun (items, cs) => (array items, cs)
    | '\x7b' :: cs =>
      match skipSpace cs with
      | '\x7d' :: cs => some (object [], cs)
      | cs => (readFields fuel cs).map fun (fields, cs) => (object fields, cs)
    | cs => readScalar cs

/-- The items of an array up to its closing bracket, and what follows it. -/
def readItems : Nat → List Char → Option (List Raw × List Char)
  | 0, _ => none
  | fuel + 1, cs =>
    match readValue fuel cs with
    | none => none
    | some (item, cs) =>
      match skipSpace cs with
      | ',' :: cs => (readItems fuel cs).map fun (items, cs) => (item :: items, cs)
      | ']' :: cs => some ([item], cs)
      | _ => none

/-- The fields of an object up to its closing brace, and what follows it. -/
def readFields : Nat → List Char → Option (List (List Piece × Raw) × List Char)
  | 0, _ => none
  | fuel + 1, cs =>
    match readField fuel cs with
    | none => none
    | some (field, cs) =>
      match skipSpace cs with
      | ',' :: cs => (readFields fuel cs).map fun (fields, cs) => (field :: fields, cs)
      | '\x7d' :: cs => some ([field], cs)
      | _ => none

/-- The key and the value of a field, and what follows it. -/
def readField : Nat → List Char → Option ((List Piece × Raw) × List Char)
  | 0, _ => none
  | fuel + 1, cs =>
    match skipSpace cs with
    | '"' :: cs =>
      match readString cs with
      | none => none
      | some (key, cs) =>
        match skipSpace cs with
        | ':' :: cs => (readValue fuel cs).map fun (value, cs) => ((key, value), cs)
        | _ => none
    | _ => none

end

/-- The tree of a text that is one value, with space around it. No more than three calls are made
in one another for a character. -/
def read? (cs : List Char) : Option Raw :=
  match readValue (3 * cs.length + 3) cs with
  | some (value, rest) => if (skipSpace rest).isEmpty then some value else none
  | none => none

end Raw

end WorkloadImages.Json

import WorkloadImages.Json.Basic
import WorkloadImages.Json.Raw
import WorkloadImages.Text.Bytes

/-!
# Reading JSON text

The value that a text stands for. The last of several fields with one key counts, and an object
keeps its fields in order of their keys. Containers may be nested in one another to a limit.

## Main definitions

* `Json.read`: the value of a text, or what is wrong with it
* `Json.ReadError`: what can be wrong, with the place of a value that is refused
-/

namespace WorkloadImages.Json

/-- The greatest number of containers in one another. -/
def maxDepth : Nat := 127

mutual

/-- The value of a tree in at most `depth` more containers. -/
def ofRaw? : Nat → Raw → Option Json
  | _, .null => some null
  | _, .bool b => some (bool b)
  | _, .number n =>
    match n.integer? with
    | some i => some (int i)
    | none => n.float?.map float
  | _, .string pieces => (textOf? pieces).map str
  | 0, .array _ => none
  | depth + 1, .array items => (ofRawItems? depth items).map arr
  | 0, .object _ => none
  | depth + 1, .object fields =>
    (ofRawFields? depth fields).map fun fields => obj (Fields.insertAll [] fields)
termination_by structural _ raw => raw

/-- The values of the items of an array. -/
def ofRawItems? : Nat → List Raw → Option (List Json)
  | _, [] => some []
  | depth, item :: items =>
    match ofRaw? depth item, ofRawItems? depth items with
    | some item, some items => some (item :: items)
    | _, _ => none
termination_by structural _ items => items

/-- The keys and values of the fields of an object, in the order of the text. -/
def ofRawFields? : Nat → List (List Piece × Raw) → Option (List (String × Json))
  | _, [] => some []
  | depth, field :: fields =>
    match ofRawField? depth field, ofRawFields? depth fields with
    | some field, some fields => some (field :: fields)
    | _, _ => none
termination_by structural _ fields => fields

/-- The key and the value of a field. -/
def ofRawField? : Nat → List Piece × Raw → Option (String × Json)
  | depth, (key, value) =>
    match textOf? key, ofRaw? depth value with
    | some key, some value => some (key, value)
    | _, _ => none
termination_by structural _ field => field

end

/-! ## Faults -/

/-- A line and a column of a text, counted from one, the column in bytes. -/
structure Place where
  /-- The line. -/
  line : Nat
  /-- The bytes from the start of the line. -/
  column : Nat
  deriving Repr, DecidableEq

/-- Why a value in the grammar is refused. -/
inductive Fault where
  /-- A string holds half of a surrogate pair. -/
  | loneSurrogate
  /-- A container is nested too deeply. -/
  | tooDeep
  /-- A number is too large. -/
  | outOfRange
  deriving Repr, DecidableEq

/-- What is wrong with a text that has no value. -/
inductive ReadError where
  /-- It is not in the grammar. -/
  | malformed
  /-- A value is refused; the place is where this was seen. -/
  | refused (fault : Fault) (place : Place)
  deriving Repr, DecidableEq

/-- The wording of a fault. -/
def Fault.message : Fault → String
  | loneSurrogate => "lone surrogate in hex escape"
  | tooDeep => "recursion limit exceeded"
  | outOfRange => "number out of range"

/-- The wording of an error. -/
def ReadError.message : ReadError → String
  | malformed => "malformed document"
  | refused fault ⟨line, column⟩ =>
    fault.message ++ s!" at line {line} column {column}"

/-- The place after a text. -/
def placeAfter (before : List Char) : Place where
  line := before.count '\n' + 1
  column := Text.byteLength (before.reverse.takeWhile (· ≠ '\n'))

/-- The first fault of a text in the grammar, with the part of the text after the string or number
or after the bracket. Containers may be nested `depth` more times; `fuel` bounds the search. -/
def firstFault : Nat → Nat → List Char → Option (Fault × List Char)
  | 0, _, _ => none
  | _, _, [] => none
  | fuel + 1, depth, c :: cs =>
    if c = '"' then
      match readString cs with
      | some (pieces, cs) =>
        if (textOf? pieces).isSome then firstFault fuel depth cs else some (.loneSurrogate, cs)
      | none => none
    else if c = '[' ∨ c = '\x7b' then
      match depth with
      | 0 => some (.tooDeep, cs)
      | depth + 1 => firstFault fuel depth cs
    -- A closing bracket gives back the level that its opening one took.
    else if c = ']' ∨ c = '\x7d' then firstFault fuel (depth + 1) cs
    else match readNumeral (c :: cs) with
      | some (n, rest) =>
        if n.integer?.isSome || n.float?.isSome then firstFault fuel depth rest
        else some (.outOfRange, rest)
      -- Words, marks and space hold no fault and are passed over by the character.
      | none => firstFault fuel depth cs

/-- The value of a text, or what is wrong with it. -/
def read (cs : List Char) : Except ReadError Json :=
  match Raw.read? cs with
  | none => .error .malformed
  | some raw =>
    match ofRaw? maxDepth raw with
    | some value => .ok value
    | none =>
      -- The text is in the grammar: what is wrong is a value, and the first one is named.
      match firstFault (cs.length + 1) maxDepth cs with
      | some (fault, rest) =>
        .error (.refused fault (placeAfter (cs.take (cs.length - rest.length))))
      | none => .error .malformed

/-- The value of a text, if it has one. -/
def read? (cs : List Char) : Option Json := (read cs).toOption

end WorkloadImages.Json

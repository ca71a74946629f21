import WorkloadImages.Json.Basic
import WorkloadImages.Text.Digits
import WorkloadImages.Text.Split

/-!
# Pointers into JSON values

A pointer is a list of tokens. Each names a field of an object or, in decimal digits, an item of an
array. As text a slash stands before every token, and a slash or a tilde in a token is escaped.

## Main definitions

* `Pointer.encode`, `Pointer.decode?`: pointers as text
* `Json.at?`: the value that a pointer leads to
* `Json.modifyAt?`: a value with another one where a pointer leads to
-/

namespace WorkloadImages

/-- The tokens of a pointer, outermost first. -/
abbrev Pointer := List String

namespace Pointer

/-! ## Text -/

/-- A character of a token as it is written. -/
def escapeChar (c : Char) : List Char :=
  if c = '~' then ['~', '0'] else if c = '/' then ['~', '1'] else [c]

/-- A token with its tildes and slashes escaped. -/
def escape (token : List Char) : List Char := token.flatMap escapeChar

/-- The token that was escaped; none when a tilde is followed by neither zero nor one. -/
def unescape? : List Char → Option (List Char)
  | [] => some []
  | '~' :: '0' :: cs => (unescape? cs).map ('~' :: ·)
  | '~' :: '1' :: cs => (unescape? cs).map ('/' :: ·)
  | c :: cs => if c = '~' then none else (unescape? cs).map (c :: ·)

/-- The text of a pointer, as characters. -/
def encodeChars (pointer : Pointer) : List Char :=
  pointer.flatMap fun token => '/' :: escape token.toList

/-- The text of a pointer. -/
def encode (pointer : Pointer) : String := String.ofList pointer.encodeChars

/-- The pointer that a text writes. It is empty or begins with a slash. -/
def decodeChars? : List Char → Option Pointer
  | [] => some []
  | '/' :: cs => (Text.pieces '/' cs).mapM fun token => (unescape? token).map String.ofList
  | _ => none

/-- The pointer that a text writes, if it writes one. -/
def decode? (text : String) : Option Pointer := decodeChars? text.toList

/-- The item that a token names: decimal digits, no zero before another digit. -/
def index? (token : String) : Option Nat :=
  match token.toList with
  | [] => none
  | ['0'] => some 0
  -- A number has one spelling only: nothing leads by `01` to the second item.
  | '0' :: _ => none
  | digits => if digits.all Char.isDigit then some (Text.digitsValue digits) else none

end Pointer

namespace Json

/-! ## Where a pointer leads -/

/-- The field or item that a token names. -/
def child? (token : String) : Json → Option Json
  | obj fields => Fields.get? token fields
  | arr items =>
    match Pointer.index? token with
    | some index => items[index]?
    | none => none
  | _ => none

/-- The value with another one as the field or item that a token names, if there is one. -/
def setChild (token : String) (child : Json) : Json → Json
  | obj fields => obj (Fields.set token child fields)
  | arr items =>
    match Pointer.index? token with
    | some index => arr (items.set index child)
    | none => arr items
  | value => value

/-- The value that a pointer leads to. -/
def at? : Json → Pointer → Option Json
  | value, [] => some value
  | value, token :: pointer =>
    match value.child? token with
    | some child => child.at? pointer
    | none => none

/-- The value with the one that a pointer leads to changed by `change`; none when the pointer
leads nowhere or `change` gives none. -/
def modifyAt? (change : Json → Option Json) : Pointer → Json → Option Json
  | [], value => change value
  | token :: pointer, value =>
    match value.child? token with
    | some child => (modifyAt? change pointer child).map (setChild token · value)
    | none => none

/-- The value with another one where a pointer leads to. -/
def replaceAt? (pointer : Pointer) (value : Json) (document : Json) : Option Json :=
  modifyAt? (fun _ => some value) pointer document

end Json

end WorkloadImages

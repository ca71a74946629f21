import WorkloadImages.Binary64.Decimal
import WorkloadImages.Json.Basic

/-!
# JSON text

The text of a value, on one line without blanks or set out over lines. In a string the quotation
mark, the backslash and the control characters are escaped; all else stands as it is.

## Main definitions

* `Json.compact`: the text without blanks
* `Json.pretty`: the text with one item or field a line, indented by two blanks a level
-/

namespace WorkloadImages

namespace Json

/-- A number has an exponent from `1e+16` up and below `0.00001`. -/
def decimalLayout : DecimalLayout := ⟨-4, 16, true⟩

/-- A hexadecimal digit in lowercase. -/
def hexDigit (n : Nat) : Char := (Nat.toDigits 16 n).headD '0'

/-- A character as it is written in a string. -/
def escapeChar (c : Char) : List Char :=
  if c = '"' then ['\\', '"']
  else if c = '\\' then ['\\', '\\']
  else if c = '\x08' then ['\\', 'b']
  else if c = '\t' then ['\\', 't']
  else if c = '\n' then ['\\', 'n']
  else if c = '\x0c' then ['\\', 'f']
  else if c = '\r' then ['\\', 'r']
  else if c.toNat < 0x20 then
    ['\\', 'u', '0', '0', hexDigit (c.toNat / 16), hexDigit (c.toNat % 16)]
  else [c]

/-- A text between quotation marks. -/
def quote (s : String) : List Char := '"' :: s.toList.flatMap escapeChar ++ ['"']

/-- The text of a value that is no array and no object. -/
def writeScalar : Json → List Char
  | null => "null".toList
  | bool true => "true".toList
  | bool false => "false".toList
  | int n => (toString n).toList
  | float x => decimalLayout.write x
  | str s => quote s
  | arr _ => []
  | obj _ => []

/-! ## On one line -/

mutual

/-- The text of a value without blanks. -/
def write : Json → List Char
  | arr items => '[' :: writeItems items ++ [']']
  | obj fields => '\x7b' :: writeFields fields ++ ['\x7d']
  | null => writeScalar null
  | bool b => writeScalar (bool b)
  | int n => writeScalar (int n)
  | float x => writeScalar (float x)
  | str s => writeScalar (str s)
termination_by structural j => j

/-- The text of items, separated by commas. -/
def writeItems : List Json → List Char
  | [] => []
  | [item] => write item
  | item :: next :: rest => write item ++ ',' :: writeItems (next :: rest)
termination_by structural items => items

/-- The text of fields, separated by commas. -/
def writeFields : List (String × Json) → List Char
  | [] => []
  | [field] => writeField field
  | field :: next :: rest => writeField field ++ ',' :: writeFields (next :: rest)
termination_by structural fields => fields

/-- The text of a field. -/
def writeField : String × Json → List Char
  | (key, value) => quote key ++ ':' :: write value
termination_by structural field => field

end

/-- The text of a value on one line, without blanks. -/
def compact (value : Json) : String := String.ofList value.write

/-! ## Over several lines -/

/-- A line break and the indentation of a level. -/
def breakTo (level : Nat) : List Char := '\n' :: List.replicate (2 * level) ' '

mutual

/-- The text of a value at a level of indentation. -/
def writeLines : Nat → Json → List Char
  | level, arr items => '[' :: writeItemLines level items ++ [']']
  | level, obj fields => '\x7b' :: writeFieldLines level fields ++ ['\x7d']
  | _, null => writeScalar null
  | _, bool b => writeScalar (bool b)
  | _, int n => writeScalar (int n)
  | _, float x => writeScalar (float x)
  | _, str s => writeScalar (str s)
termination_by structural _ j => j

/-- The text of items one level deeper, up to the bracket on the last line. -/
def writeItemLines : Nat → List Json → List Char
  | _, [] => []
  | level, [item] => breakTo (level + 1) ++ writeLines (level + 1) item ++ breakTo level
  | level, item :: next :: rest =>
    breakTo (level + 1) ++ writeLines (level + 1) item ++
      ',' :: writeItemLines level (next :: rest)
termination_by structural _ items => items

/-- The text of fields one level deeper, up to the brace on the last line. -/
def writeFieldLines : Nat → List (String × Json) → List Char
  | _, [] => []
  | level, [field] => breakTo (level + 1) ++ writeFieldLine (level + 1) field ++ breakTo level
  | level, field :: next :: rest =>
    breakTo (level + 1) ++ writeFieldLine (level + 1) field ++
      ',' :: writeFieldLines level (next :: rest)
termination_by structural _ fields => fields

/-- The text of a field at a level of indentation. -/
def writeFieldLine : Nat → String × Json → List Char
  | level, (key, value) => quote key ++ [':', ' '] ++ writeLines level value
termination_by structural _ field => field

end

/-- The text of a value with one item or field a line. -/
def pretty (value : Json) : String := String.ofList (value.writeLines 0)

end Json

end WorkloadImages

import WorkloadImages.Binary64.Basic
import WorkloadImages.Text.Digits

/-!
# JSON strings and numbers

The text of a string and of a number, apart from what they stand for. A string may name half of
a surrogate pair, and a number may be too large for its format: both have a text and no meaning.

## Main definitions

* `Piece`, `readString`, `decodePieces`: strings
* `Numeral`, `readNumeral`, `Numeral.integer?`, `Numeral.float?`: numbers
-/

namespace WorkloadImages.Json

open Text (digitValue digitsValue hexDigitsValue?)

/-! ## Strings -/

/-- A piece of the text of a string. -/
inductive Piece where
  /-- A character, as it stands or by a short escape. -/
  | char (c : Char)
  /-- A code unit of sixteen bits, by its hexadecimal digits. -/
  | unit (n : Nat)
  deriving Repr, DecidableEq

/-- The character of a short escape. -/
def shortEscape? : Char → Option Char
  | '"' => some '"'
  | '\\' => some '\\'
  | '/' => some '/'
  | 'b' => some '\x08'
  | 'f' => some '\x0c'
  | 'n' => some '\n'
  | 'r' => some '\r'
  | 't' => some '\t'
  | _ => none

/-- The pieces of a string from after its opening quotation mark, and what follows the closing
one. -/
def readString : List Char → Option (List Piece × List Char)
  | [] => none
  | '"' :: rest => some ([], rest)
  | '\\' :: 'u' :: a :: b :: c :: d :: rest =>
    match hexDigitsValue? [a, b, c, d], readString rest with
    | some n, some (pieces, rest) => some (.unit n :: pieces, rest)
    | _, _ => none
  -- No short escape is a `u`: a unit with too few digits ends here as well.
  | '\\' :: e :: rest =>
    match shortEscape? e, readString rest with
    | some c, some (pieces, rest) => some (.char c :: pieces, rest)
    | _, _ => none
  | c :: rest =>
    if c = '\\' ∨ c.toNat < 0x20 then none
    else match readString rest with
      | some (pieces, rest) => some (.char c :: pieces, rest)
      | none => none

/-- Whether a code unit is the first half of a surrogate pair. -/
def isHighSurrogate (n : Nat) : Bool := 0xD800 ≤ n && n ≤ 0xDBFF

/-- Whether a code unit is the second half of a surrogate pair. -/
def isLowSurrogate (n : Nat) : Bool := 0xDC00 ≤ n && n ≤ 0xDFFF

/-- The text of pieces; none when a surrogate stands alone. -/
def decodePieces : List Piece → Option (List Char)
  | [] => some []
  | .char c :: rest => (decodePieces rest).map (c :: ·)
  | .unit high :: .unit low :: rest =>
    -- Only the second half of a pair may follow the first; otherwise the units are separate.
    if isHighSurrogate high then
      if isLowSurrogate low then
        (decodePieces rest).map
          (Char.ofNat (0x10000 + (high - 0xD800) * 0x400 + (low - 0xDC00)) :: ·)
      else none
    else if isLowSurrogate high then none
    else (decodePieces (.unit low :: rest)).map (Char.ofNat high :: ·)
  | .unit n :: rest =>
    if isHighSurrogate n || isLowSurrogate n then none
    else (decodePieces rest).map (Char.ofNat n :: ·)

/-- The text that pieces stand for. -/
def textOf? (pieces : List Piece) : Option String := (decodePieces pieces).map String.ofList

/-! ## Numbers -/

/-- The text of a number. -/
structure Numeral where
  /-- Whether a minus sign stands first. -/
  negative : Bool
  /-- The digits before the point. -/
  whole : List Char
  /-- The digits after the point, none when there is no point. -/
  fraction : List Char
  /-- The exponent, if there is one. -/
  exponent : Option Int
  deriving Repr, DecidableEq

/-- The digits at the front of a text, at least one, and the rest. -/
def readDigits (cs : List Char) : Option (List Char × List Char) :=
  match cs.takeWhile Char.isDigit with
  | [] => none
  | digits => some (digits, cs.dropWhile Char.isDigit)

/-- The digits before the point: no zero stands before another digit. -/
def readWhole : List Char → Option (List Char × List Char)
  -- A digit after the zero is left for what follows the number, where none may stand.
  | '0' :: rest => some (['0'], rest)
  | cs => readDigits cs

/-- The point and the digits after it, if a point is next. -/
def readFraction : List Char → Option (List Char × List Char)
  | '.' :: rest => readDigits rest
  | cs => some ([], cs)

/-- The exponent, if one is next. -/
def readExponent : List Char → Option (Option Int × List Char)
  | e :: rest =>
    if e = 'e' ∨ e = 'E' then
      let (negative, digits) := match rest with
        | '-' :: rest => (true, rest)
        | '+' :: rest => (false, rest)
        | rest => (false, rest)
      match readDigits digits with
      | some (digits, rest) =>
        let n : Int := digitsValue digits
        some (some (if negative then -n else n), rest)
      | none => none
    else some (none, e :: rest)
  | [] => some (none, [])

/-- The number at the front of a text, and the rest. -/
def readNumeral (cs : List Char) : Option (Numeral × List Char) :=
  let (negative, cs) := match cs with
    | '-' :: cs => (true, cs)
    | cs => (false, cs)
  match readWhole cs with
  | none => none
  | some (whole, cs) =>
    match readFraction cs with
    | none => none
    | some (fraction, cs) =>
      match readExponent cs with
      | none => none
      | some (exponent, cs) => some (⟨negative, whole, fraction, exponent⟩, cs)

/-- A significand has 64 bits at most. -/
def significandLimit : Nat := Nat.pow 2 64

/-- A significand with as many more digits as it has room for, and the digits left over. -/
def absorb : Nat → List Char → Nat × List Char
  | n, [] => (n, [])
  | n, c :: cs =>
    if n * 10 + digitValue c < significandLimit then absorb (n * 10 + digitValue c) cs
    else (n, c :: cs)

/-- The integer of a number without a point and exponent, if it is one of 64 bits. Minus zero is
none. -/
def Numeral.integer? (n : Numeral) : Option Int :=
  if n.fraction ≠ [] ∨ n.exponent ≠ none then none
  else
    let value := digitsValue n.whole
    if n.negative then if 0 < value ∧ value ≤ Nat.pow 2 63 then some (-(value : Int)) else none
    else if value < significandLimit then some value
    else none

/-- The greatest power of ten that a number is scaled by at once. -/
def greatestPower : Nat := 308

/-- A number divided by the greatest power of ten so many times, until it is zero. -/
def divideTimes : Nat → Binary64 → Option Binary64
  | 0, x => some x
  | times + 1, x =>
    if x.isZero then some x
    else ((Binary64.powerOfTen? greatestPower).bind x.div?).bind (divideTimes times)

/-- A number divided by a power of ten, by the greatest power as often as needed first. -/
def divideByTens (x : Binary64) (power : Nat) : Option Binary64 :=
  let times := (power - 1) / greatestPower
  match divideTimes times x with
  | none => none
  | some x => (Binary64.powerOfTen? (power - times * greatestPower)).bind x.div?

/-- A number multiplied by a power of ten; none when that is too large. -/
def multiplyByTens (x : Binary64) (power : Nat) : Option Binary64 :=
  if power ≤ greatestPower then (Binary64.powerOfTen? power).bind x.mul?
  -- Zero stays zero, by whatever power it is multiplied.
  else if x.isZero then some x
  else none

/-- The double precision number of a text. The first digits that fit a significand of 64 bits are
rounded, and the result is multiplied or divided by a rounded power of ten and rounded again: it
may be off the nearest number by the last digit. None when it is too large. -/
def Numeral.float? (n : Numeral) : Option Binary64 :=
  -- Digits that do not fit count by their place before the point, and not at all after it.
  let (significand, more) := absorb 0 n.whole
  let (significand, unused) := absorb significand n.fraction
  let exponent : Int :=
    (more.length : Int) - (n.fraction.length - unused.length) + n.exponent.getD 0
  match Binary64.ofNat? n.negative significand with
  | none => none
  | some x =>
    if 0 ≤ exponent then multiplyByTens x exponent.toNat else divideByTens x (-exponent).toNat

end WorkloadImages.Json

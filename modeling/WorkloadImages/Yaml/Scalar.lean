import WorkloadImages.Json.Basic
import WorkloadImages.Text.Digits

/-!
# What plain scalars stand for

A plain scalar stands for null, a truth value, a number or a text. Only three spellings of a word
count, and digits after a leading zero are a text.

## Main definitions

* `Scalar`, `Scalar.ofPlain`: what a text stands for as a plain scalar
* `Scalar.toJson?`: the value
-/

namespace WorkloadImages.Yaml

/-- What a scalar stands for. -/
inductive Scalar where
  /-- The null value. -/
  | null
  /-- A truth value. -/
  | bool (value : Bool)
  /-- An integer of 128 bits. -/
  | int (value : Int)
  /-- A double precision number, none for infinity and for what is no number. -/
  | float (value : Option Binary64)
  /-- A text. -/
  | text (value : List Char)
  deriving DecidableEq

namespace Scalar

/-! ## Words -/

/-- Whether a text is a word for null. -/
def isNullWord (cs : List Char) : Bool :=
  cs = "null".toList || cs = "Null".toList || cs = "NULL".toList || cs = ['~']

/-- The truth value that a text is a word for. -/
def bool? (cs : List Char) : Option Bool :=
  if cs = "true".toList ∨ cs = "True".toList ∨ cs = "TRUE".toList then some true
  else if cs = "false".toList ∨ cs = "False".toList ∨ cs = "FALSE".toList then some false
  else none

/-! ## Integers -/

/-- A text without a sign at its front, and whether it had one that is minus. -/
def unsigned : List Char → List Char
  | '+' :: cs => cs
  | '-' :: cs => cs
  | cs => cs

/-- Whether a text is digits after a leading zero, with or without a sign. -/
def isZeroLed (cs : List Char) : Bool :=
  match unsigned cs with
  | '0' :: c :: cs => (c :: cs).all Char.isDigit
  | _ => false

/-- The number that digits of a base write, at least one. -/
def inBase? (base : Nat) (cs : List Char) : Option Nat :=
  if cs.isEmpty then none
  else cs.foldlM
    (fun n c => match Text.hexValue? c with
      | some d => if d < base then some (n * base + d) else none
      | none => none) 0

/-- The number that a text without a sign writes, in the base that it begins with or in tens. -/
def natural? : List Char → Option Nat
  | '0' :: 'x' :: cs => inBase? 16 cs
  | '0' :: 'o' :: cs => inBase? 8 cs
  | '0' :: 'b' :: cs => inBase? 2 cs
  | cs => if isZeroLed cs then none else inBase? 10 cs

/-- The integer of 128 bits that a text writes. -/
def int? (cs : List Char) : Option Int :=
  match cs with
  | '-' :: digits =>
    match natural? digits with
    | some n => if n ≤ Nat.pow 2 127 then some (-(n : Int)) else none
    | none => none
  | '+' :: digits => nonnegative digits
  | digits => nonnegative digits
where
  /-- A number of 128 bits without a sign. -/
  nonnegative (digits : List Char) : Option Int :=
    match natural? digits with
    | some n => if n < Nat.pow 2 128 then some n else none
    | none => none

/-! ## Double precision numbers -/

/-- The decimal that a text writes: digits with a point among them or at an end, at least one, and
an exponent or none. -/
def decimal? (negative : Bool) (cs : List Char) : Option Binary64 :=
  let whole := cs.takeWhile Char.isDigit
  let rest := cs.dropWhile Char.isDigit
  let (fraction, rest) := match rest with
    | '.' :: rest => (rest.takeWhile Char.isDigit, rest.dropWhile Char.isDigit)
    | rest => ([], rest)
  if whole.isEmpty && fraction.isEmpty then none
  else match exponent? rest with
    | none => none
    | some exponent =>
      Binary64.ofDecimal? negative (Text.digitsValue (whole ++ fraction))
        (exponent - fraction.length)
where
  /-- The exponent that is all the rest of a text, zero when nothing is left. -/
  exponent? : List Char → Option Int
    | [] => some 0
    | e :: cs =>
      let digits := unsigned cs
      if (e = 'e' ∨ e = 'E') ∧ !digits.isEmpty ∧ digits.all Char.isDigit then
        let n : Int := Text.digitsValue digits
        some (if cs.head? = some '-' then -n else n)
      else none

/-- Whether a text is a word for infinity, without a sign. -/
def isInfinity (cs : List Char) : Bool :=
  cs = ".inf".toList || cs = ".Inf".toList || cs = ".INF".toList

/-- Whether a text is a word for what is no number. -/
def isNotANumber (cs : List Char) : Bool :=
  cs = ".nan".toList || cs = ".NaN".toList || cs = ".NAN".toList

/-- The double precision number that a text writes, with none inside for what is not finite. A
decimal too large for the format is none. -/
def float? (cs : List Char) : Option (Option Binary64) :=
  if isInfinity (unsigned cs) || isNotANumber cs then some none
  else match cs with
    | '-' :: cs => (decimal? true cs).map some
    | '+' :: cs => (decimal? false cs).map some
    | cs => (decimal? false cs).map some

/-! ## Plain scalars -/

/-- What a text stands for as a plain scalar. -/
def ofPlain (cs : List Char) : Scalar :=
  if cs.isEmpty || isNullWord cs then .null
  else match bool? cs with
    | some b => .bool b
    | none =>
      match int? cs with
      | some n => .int n
      | none =>
        -- Digits after a leading zero are not taken for a decimal either.
        if isZeroLed cs then .text cs
        else match float? cs with
          | some x => .float x
          | none => .text cs

/-- The value of a scalar; none for an integer of more than 64 bits. -/
def toJson? : Scalar → Option Json
  | .null => some .null
  | .bool b => some (.bool b)
  | .int n => if -(Nat.pow 2 63 : Nat) ≤ n ∧ n < (Nat.pow 2 64 : Nat) then some (.int n) else none
  | .float (some x) => some (.float x)
  | .float none => some .null
  | .text cs => some (.str (String.ofList cs))

end Scalar

end WorkloadImages.Yaml

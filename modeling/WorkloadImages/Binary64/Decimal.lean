import WorkloadImages.Binary64.Basic

/-!
# The shortest decimal of a double precision number

A number of the format is written by the fewest decimal digits that read back as it, and of those
by the nearest ones; of two equally near the even one is taken. For one digit, two digits, and so
on, the two decimals next to the number are tried until one lies among the reals that round to it.

## Main definitions

* `Binary64.Interval`, `Binary64.interval`: the reals that round to a number
* `Binary64.shortest`: the digits and their power of ten
* `DecimalLayout`: how digits are set out as text
-/

namespace WorkloadImages

namespace Binary64

/-- The reals that round to a number, in units of `1 / scale`: from `low` to `high` around
`value`, with both ends when `closed`. -/
structure Interval where
  /-- The least real. -/
  low : Nat
  /-- The number itself. -/
  value : Nat
  /-- The greatest real. -/
  high : Nat
  /-- The number of units in one. -/
  scale : Nat
  /-- Whether the ends round to the number too. -/
  closed : Bool

/-- The reals that round to the number. Its lower neighbour is half as far away when the
significand is the least one of its exponent. -/
def interval (x : Binary64) : Interval :=
  let below := if x.significand = Nat.pow 2 52 ∧ -1074 < x.exponent then 1 else 2
  -- In quarters of the last place the ends of the interval are whole numbers.
  let (unit, scale) := scaled 1 4 x.exponent
  { low := (4 * x.significand - below) * unit
    value := 4 * x.significand * unit
    high := (4 * x.significand + 2) * unit
    scale := scale
    closed := x.significand % 2 = 0 }

/-- Whether `num / den` is one of the reals. -/
def Interval.contains (i : Interval) (num den : Nat) : Bool :=
  let point := num * i.scale
  if i.closed then i.low * den ≤ point && point ≤ i.high * den
  else i.low * den < point && point < i.high * den

/-- A power of ten as a ratio. -/
def tenTo (exponent : Int) : Nat × Nat :=
  if 0 ≤ exponent then (Nat.pow 10 exponent.toNat, 1) else (1, Nat.pow 10 (-exponent).toNat)

/-- The nearer of the two multiples of a power of ten around the number that round to it; the
even one of two equally near. -/
def Interval.onGrid? (i : Interval) (exponent : Int) : Option Nat :=
  let (num, den) := tenTo exponent
  let unit := num * i.scale
  let below := i.value * den / unit
  let rest := i.value * den % unit
  -- Both neighbours of the number on the grid are tried: either may read back as it.
  let lower := i.contains (below * num) den
  let upper := i.contains ((below + 1) * num) den
  if lower && upper then
    if 2 * rest < unit ∨ (2 * rest = unit ∧ below % 2 = 0) then some below else some (below + 1)
  else if lower then some below
  else if upper then some (below + 1)
  else none

/-- The least power of ten above a ratio that is not zero; `fuel` bounds the search from below. -/
def decadeFrom : Nat → Int → Nat → Nat → Int
  | 0, k, _, _ => k
  | fuel + 1, k, num, den =>
    let (n, d) := tenTo k
    if num * d < n * den then k else decadeFrom fuel (k + 1) num den

/-- The least power of ten above a ratio that is not zero, found from its binary magnitude. -/
def decade (num den : Nat) : Int :=
  -- The decimal logarithm of two is 0.30103: the search begins at most a few decades low.
  let bits : Int := (num.log2 : Int) - den.log2 - 1
  decadeFrom 8 (bits * 30103 / 100000 - 1) num den

/-- The first grid of `digits` digits or more on which a multiple rounds to the number; the number
has `decade` as its least greater power of ten. -/
def Interval.firstOnGrid (i : Interval) (decade : Int) : Nat → Nat → Nat × Int
  | 0, _ => (0, 0)
  | fuel + 1, digits =>
    let exponent := decade - (digits : Int)
    match i.onGrid? exponent with
    | some multiple => (multiple, exponent)
    | none => i.firstOnGrid decade fuel (digits + 1)

/-- The decimal without zeros at its end; `fuel` bounds their number. -/
def stripZeros : Nat → Nat → Int → Nat × Int
  | 0, digits, exponent => (digits, exponent)
  | fuel + 1, digits, exponent =>
    if digits ≠ 0 ∧ digits % 10 = 0 then stripZeros fuel (digits / 10) (exponent + 1)
    else (digits, exponent)

/-- The fewest decimal digits that read back as the number's magnitude, with their power of ten.
Seventeen digits are enough for every number of the format. -/
def shortest (x : Binary64) : Nat × Int :=
  if x.isZero then (0, 0)
  else
    let i := x.interval
    let (digits, exponent) := i.firstOnGrid (decade i.value i.scale) 17 1
    stripZeros 17 digits exponent

end Binary64

/-! ## Layout -/

/-- How the digits of a number are set out: without an exponent when the point stands within a
range, counted from before the first digit. -/
structure DecimalLayout where
  /-- The places of the point left of which an exponent is written. -/
  least : Int
  /-- The place of the point right of which an exponent is written. -/
  greatest : Int
  /-- Whether a plus sign is written before an exponent. -/
  plus : Bool

/-- The text of a number in a layout: digits without an exponent have a fraction, `.0` if need
be. -/
def DecimalLayout.write (layout : DecimalLayout) (x : Binary64) : List Char :=
  let sign := if x.negative then ['-'] else []
  if x.isZero then sign ++ ['0', '.', '0']
  else
    let (digits, exponent) := x.shortest
    let text := Nat.toDigits 10 digits
    let point : Int := text.length + exponent
    sign ++
      -- The point stands among the digits, before them, or after them.
      if layout.least ≤ point ∧ point ≤ layout.greatest then
        if point ≤ 0 then
          ['0', '.'] ++ List.replicate (-point).toNat '0' ++ text
        else if text.length ≤ point.toNat then
          text ++ List.replicate (point.toNat - text.length) '0' ++ ['.', '0']
        else text.take point.toNat ++ '.' :: text.drop point.toNat
      else
        let power := point - 1
        let mantissa := match text with
          | [] => []
          | [digit] => [digit]
          | digit :: rest => digit :: '.' :: rest
        mantissa ++ ['e'] ++ (if power < 0 then ['-'] else if layout.plus then ['+'] else []) ++
          Nat.toDigits 10 power.natAbs

end WorkloadImages

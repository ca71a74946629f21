/-!
# Double precision numbers

The finite numbers of the binary64 format as a sign, a significand and an exponent of two, and
their arithmetic: exact in natural numbers, then rounded to the nearest number of the format, a
half to the even one.

## Main definitions

* `Binary64`: the finite numbers of the format
* `Binary64.ofScaled?`: the number nearest to a ratio times a power of two
* `Binary64.mul?`, `Binary64.div?`: rounded products and quotients
* `Binary64.ofDecimal?`: the number nearest to a decimal one
-/

namespace WorkloadImages

/-- A finite double precision number: `significand` times two to the power `exponent`, with a
sign. -/
structure Binary64 where
  /-- Whether the sign is minus. -/
  negative : Bool
  /-- The digits, as an integer. -/
  significand : Nat
  /-- The power of two of the last digit. -/
  exponent : Int
  /-- The significand has 53 bits, less than that only at the least exponent. -/
  inFormat : significand < Nat.pow 2 53 ∧ -1074 ≤ exponent ∧ exponent ≤ 971 ∧
    (Nat.pow 2 52 ≤ significand ∨ exponent = -1074)
  deriving DecidableEq

namespace Binary64

/-- Zero with a sign. -/
def zero (negative : Bool) : Binary64 := ⟨negative, 0, -1074, by decide⟩

instance : Inhabited Binary64 := ⟨zero false⟩

/-- Whether the number is zero of either sign. -/
def isZero (x : Binary64) : Bool := x.significand == 0

/-! ## Rounding -/

/-- The integer nearest to a ratio; of two, the even one. -/
def roundDiv (num den : Nat) : Nat :=
  let q := num / den
  let r := num % den
  if 2 * r > den ∨ (2 * r = den ∧ q % 2 = 1) then q + 1 else q

/-- A ratio times a power of two, as a ratio. -/
def scaled (num den : Nat) (exponent : Int) : Nat × Nat :=
  if 0 ≤ exponent then (num * Nat.pow 2 exponent.toNat, den)
  else (num, den * Nat.pow 2 (-exponent).toNat)

/-- The exponent at which a nonzero ratio has a significand of 53 bits, or the least one. -/
def exponentOf (num den : Nat) : Int :=
  -- The bit lengths give the quotient to within one bit.
  let guess : Int := (num.log2 : Int) - den.log2 - 53
  let (n, d) := scaled num den (-guess)
  max (-1074) (if n / d < Nat.pow 2 53 then guess else guess + 1)

/-- The number of a sign, a significand of up to 53 bits or the next power of two, and an
exponent, if it is in the format. -/
def normalise? (negative : Bool) (significand : Nat) (exponent : Int) : Option Binary64 :=
  -- Rounding up may carry into a bit more than there is room for.
  let (s, e) :=
    if significand = Nat.pow 2 53 then (Nat.pow 2 52, exponent + 1) else (significand, exponent)
  if h : s < Nat.pow 2 53 ∧ -1074 ≤ e ∧ e ≤ 971 ∧ (Nat.pow 2 52 ≤ s ∨ e = -1074) then
    some ⟨negative, s, e, h⟩
  else none

/-- The number nearest to `num / den` times two to the power `exponent`; none when that is too
large for the format. -/
def ofScaled? (negative : Bool) (num den : Nat) (exponent : Int) : Option Binary64 :=
  if num = 0 then some (zero negative)
  else
    let (num, den) := scaled num den exponent
    let e := exponentOf num den
    let (n, d) := scaled num den (-e)
    normalise? negative (roundDiv n d) e

/-! ## Arithmetic -/

/-- The number nearest to a natural number. -/
def ofNat? (negative : Bool) (n : Nat) : Option Binary64 := ofScaled? negative n 1 0

/-- The rounded product. -/
def mul? (x y : Binary64) : Option Binary64 :=
  ofScaled? (x.negative != y.negative) (x.significand * y.significand) 1 (x.exponent + y.exponent)

/-- The rounded quotient, for a nonzero divisor. -/
def div? (x y : Binary64) : Option Binary64 :=
  ofScaled? (x.negative != y.negative) x.significand y.significand (x.exponent - y.exponent)

/-- The number nearest to ten to the power `k`. -/
def powerOfTen? (k : Nat) : Option Binary64 := ofNat? false (Nat.pow 10 k)

/-- The number nearest to `digits` times ten to the power `exponent`. A power far outside the
range of the format is not computed: with so many digits, the number is too large, or rounds to
zero. -/
def ofDecimal? (negative : Bool) (digits : Nat) (exponent : Int) : Option Binary64 :=
  if digits = 0 then some (zero negative)
  else
    -- A decimal beyond these bounds is decided without a power of ten of that size.
    let magnitude : Int := exponent + (Nat.toDigits 10 digits).length
    if 400 < magnitude then none
    else if magnitude < -400 then some (zero negative)
    else if 0 ≤ exponent then ofScaled? negative (digits * Nat.pow 10 exponent.toNat) 1 0
    else ofScaled? negative digits (Nat.pow 10 (-exponent).toNat) 0

end Binary64

end WorkloadImages

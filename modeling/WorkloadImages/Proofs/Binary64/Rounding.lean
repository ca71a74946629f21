import Mathlib.Algebra.Order.Field.Basic
import Mathlib.Algebra.Order.Field.Power
import Mathlib.Algebra.Order.Field.Rat
import Mathlib.Data.Nat.Log
import Mathlib.Tactic.FieldSimp
import Mathlib.Tactic.Linarith
import Mathlib.Tactic.NormNum
import Mathlib.Tactic.Positivity
import Mathlib.Tactic.Ring
import WorkloadImages.Binary64.Basic

/-!
# Rounding to double precision

The magnitudes of double precision numbers as rationals. A ratio below the limit of the format is
rounded to a number of the format; what is rounded off is half a unit of the last place, which is
relative to the ratio unless the ratio is below the normal numbers.

## Main definitions

* `Binary64.magnitude`: a number of the format without its sign
* `Binary64.limit`: the least magnitude that is too large for the format

## Main results

* `Binary64.exponentOf_bounds`: the significand that a ratio has at its exponent
* `Binary64.exists_ofScaled?`: a ratio below the limit is rounded, and to what
* `Binary64.exists_mul?`, `Binary64.exists_div?`: products and quotients below the limit
-/

namespace WorkloadImages.Binary64

/-- The number without its sign. -/
def magnitude (x : Binary64) : ℚ := x.significand * 2 ^ x.exponent

/-- The least magnitude that is too large for the format: half a unit of the last place above its
greatest number. -/
def limit : ℚ := (2 ^ 54 - 1) * 2 ^ (970 : ℤ)

theorem magnitude_nonneg (x : Binary64) : 0 ≤ x.magnitude := by
  unfold magnitude
  positivity

theorem magnitude_zero (negative : Bool) : (zero negative).magnitude = 0 := by
  simp [magnitude, zero]

theorem isZero_of_magnitude {x : Binary64} (h : x.magnitude = 0) : x.isZero = true := by
  unfold magnitude at h
  have hpow : (2 : ℚ) ^ x.exponent ≠ 0 := by positivity
  have hsignificand := (mul_eq_zero.1 h).resolve_right hpow
  simpa [isZero] using hsignificand

/-! ## Rounding to integers -/

/-- The integer nearest to a ratio is within a half of it. -/
theorem abs_roundDiv_sub_le (num : Nat) {den : Nat} (hden : 0 < den) :
    |(roundDiv num den : ℚ) - num / den| ≤ 1 / 2 := by
  have hpos : (0 : ℚ) < den := by exact_mod_cast hden
  have hdiv : (den : ℚ) * (num / den : Nat) + (num % den : Nat) = num := by
    exact_mod_cast Nat.div_add_mod num den
  have hmod : ((num % den : Nat) : ℚ) < den := by exact_mod_cast Nat.mod_lt num hden
  have hmod' : (0 : ℚ) ≤ (num % den : Nat) := by positivity
  have hratio : (num : ℚ) / den = (num / den : Nat) + (num % den : Nat) / den := by
    field_simp
    linarith
  rw [hratio]
  unfold roundDiv
  dsimp only
  split
  · next h =>
    -- The rest is half of the divisor or more.
    have hrest : (den : ℚ) ≤ 2 * (num % den : Nat) := by
      rcases h with h | ⟨h, -⟩ <;> exact_mod_cast (by omega : den ≤ 2 * (num % den))
    have hlow : 1 / 2 ≤ ((num % den : Nat) : ℚ) / den := by
      rw [div_le_div_iff₀ (by norm_num) hpos]
      linarith
    have hhigh : ((num % den : Nat) : ℚ) / den ≤ 1 := (div_le_one hpos).2 hmod.le
    push_cast
    rw [abs_le]
    constructor <;> linarith
  · next h =>
    have hrest : 2 * ((num % den : Nat) : ℚ) ≤ den := by
      exact_mod_cast (by omega : 2 * (num % den) ≤ den)
    have hlow : 0 ≤ ((num % den : Nat) : ℚ) / den := by positivity
    have hhigh : ((num % den : Nat) : ℚ) / den ≤ 1 / 2 := by
      rw [div_le_div_iff₀ hpos (by norm_num)]
      linarith
    rw [abs_le]
    constructor <;> linarith

/-! ## Exponents -/

theorem scaled_eq (num : Nat) {den : Nat} (hden : 0 < den) (exponent : Int) :
    0 < (scaled num den exponent).2 ∧
      ((scaled num den exponent).1 : ℚ) / (scaled num den exponent).2 =
        num / den * 2 ^ exponent := by
  unfold scaled
  split
  · next h =>
    obtain ⟨k, rfl⟩ := Int.eq_ofNat_of_zero_le h
    refine ⟨hden, ?_⟩
    simp only [Int.toNat_natCast, Nat.pow_eq, zpow_natCast]
    push_cast
    ring
  · next h =>
    obtain ⟨k, hk⟩ := Int.eq_ofNat_of_zero_le (by omega : 0 ≤ -exponent)
    obtain rfl : exponent = -k := by omega
    refine ⟨by simp only [neg_neg, Int.toNat_natCast, Nat.pow_eq]; positivity, ?_⟩
    simp only [neg_neg, Int.toNat_natCast, Nat.pow_eq, zpow_neg, zpow_natCast]
    push_cast
    field_simp

/-- A ratio lies between the powers of two that the bit lengths of its parts give. -/
theorem ratio_bounds {num den : Nat} (hnum : num ≠ 0) (hden : den ≠ 0) :
    (2 : ℚ) ^ ((num.log2 : Int) - den.log2 - 1) < num / den ∧
      (num : ℚ) / den < 2 ^ ((num.log2 : Int) - den.log2 + 1) := by
  have hnumLow : (2 : ℚ) ^ num.log2 ≤ num := by exact_mod_cast Nat.log2_self_le hnum
  have hnumHigh : (num : ℚ) < 2 ^ (num.log2 + 1) := by exact_mod_cast Nat.lt_log2_self
  have hdenLow : (2 : ℚ) ^ den.log2 ≤ den := by exact_mod_cast Nat.log2_self_le hden
  have hdenHigh : (den : ℚ) < 2 ^ (den.log2 + 1) := by exact_mod_cast Nat.lt_log2_self
  have hpos : (0 : ℚ) < den := by exact_mod_cast Nat.pos_of_ne_zero hden
  have hlow : (2 : ℚ) ^ ((num.log2 : Int) - den.log2 - 1) =
      2 ^ num.log2 / 2 ^ (den.log2 + 1) := by
    rw [← zpow_natCast, ← zpow_natCast, ← zpow_sub₀ two_ne_zero]
    congr 1
    push_cast
    ring
  have hhigh : (2 : ℚ) ^ ((num.log2 : Int) - den.log2 + 1) =
      2 ^ (num.log2 + 1) / 2 ^ den.log2 := by
    rw [← zpow_natCast, ← zpow_natCast, ← zpow_sub₀ two_ne_zero]
    congr 1
    push_cast
    ring
  rw [hlow, hhigh]
  constructor
  · rw [div_lt_div_iff₀ (by positivity) hpos]
    calc (2 : ℚ) ^ num.log2 * den ≤ num * den := by gcongr
      _ < num * 2 ^ (den.log2 + 1) := by
        have : (0 : ℚ) < num := by exact_mod_cast Nat.pos_of_ne_zero hnum
        gcongr
  · rw [div_lt_div_iff₀ hpos (by positivity)]
    calc (num : ℚ) * 2 ^ den.log2 < 2 ^ (num.log2 + 1) * 2 ^ den.log2 := by gcongr
      _ ≤ 2 ^ (num.log2 + 1) * den := by gcongr

theorem natDiv_lt_iff {num den bound : Nat} (hden : 0 < den) :
    num / den < bound ↔ (num : ℚ) / den < bound := by
  have hpos : (0 : ℚ) < den := by exact_mod_cast hden
  rw [Nat.div_lt_iff_lt_mul hden, div_lt_iff₀ hpos]
  exact_mod_cast Iff.rfl

/-- **The exponent of a ratio** is that at which its significand has 53 bits, or the least one of
the format, at which it may have less. -/
theorem exponentOf_bounds {num den : Nat} (hnum : num ≠ 0) (hden : den ≠ 0) :
    -1074 ≤ exponentOf num den ∧ (num : ℚ) / den * 2 ^ (-exponentOf num den) < 2 ^ 53 ∧
      (exponentOf num den = -1074 ∨
        2 ^ 52 ≤ (num : ℚ) / den * 2 ^ (-exponentOf num den)) := by
  set ratio : ℚ := num / den with hratio
  obtain ⟨hlow, hhigh⟩ := ratio_bounds hnum hden
  rw [← hratio] at hlow hhigh
  set guess : Int := (num.log2 : Int) - den.log2 - 53 with hguess
  obtain ⟨hpos, hscaled⟩ := scaled_eq num (Nat.pos_of_ne_zero hden) (-guess)
  rw [← hratio] at hscaled
  -- The guess is off by one at most.
  have hlow' : (2 : ℚ) ^ 52 < ratio * 2 ^ (-guess) := by
    calc (2 : ℚ) ^ 52 = 2 ^ ((num.log2 : Int) - den.log2 - 1) * 2 ^ (-guess) := by
          rw [← zpow_add₀ two_ne_zero, hguess, ← zpow_natCast]
          congr 1
          push_cast
          ring
      _ < ratio * 2 ^ (-guess) := by gcongr
  have hhigh' : ratio * 2 ^ (-guess) < 2 ^ 54 := by
    calc ratio * 2 ^ (-guess) < 2 ^ ((num.log2 : Int) - den.log2 + 1) * 2 ^ (-guess) := by gcongr
      _ = 2 ^ 54 := by
          rw [← zpow_add₀ two_ne_zero, hguess, ← zpow_natCast]
          congr 1
          push_cast
          ring
  -- Whether it is shows in the number of bits of the scaled ratio.
  have hchosen : ∃ chosen : Int, exponentOf num den = max (-1074) chosen ∧
      ratio * 2 ^ (-chosen) < 2 ^ 53 ∧ 2 ^ 52 ≤ ratio * 2 ^ (-chosen) := by
    unfold exponentOf
    dsimp only
    rw [← hguess]
    split
    · next h =>
      rw [natDiv_lt_iff hpos, hscaled] at h
      exact ⟨guess, rfl, by exact_mod_cast h, hlow'.le⟩
    · next h =>
      rw [natDiv_lt_iff hpos, hscaled, not_lt] at h
      have hhalf : ratio * 2 ^ (-(guess + 1)) = ratio * 2 ^ (-guess) / 2 := by
        rw [neg_add, zpow_add₀ two_ne_zero]
        norm_num
        ring
      have h : (2 : ℚ) ^ 53 ≤ ratio * 2 ^ (-guess) := by exact_mod_cast h
      exact ⟨guess + 1, rfl, by rw [hhalf]; linarith, by rw [hhalf]; linarith⟩
  obtain ⟨chosen, heq, hlt, hle⟩ := hchosen
  rw [heq]
  rcases le_total (-1074) chosen with h | h
  · rw [max_eq_right h]
    exact ⟨h, hlt, Or.inr hle⟩
  · rw [max_eq_left h]
    refine ⟨le_refl _, lt_of_le_of_lt ?_ hlt, Or.inl rfl⟩
    have hnonneg : 0 ≤ ratio := by positivity
    have hpow : (2 : ℚ) ^ (-(-1074 : Int)) ≤ 2 ^ (-chosen) :=
      zpow_le_zpow_right₀ one_le_two (by omega)
    gcongr

/-! ## Rounding to the format -/

/-- Below the limit the significand is small where the exponent is great. -/
theorem mul_pow_lt_of_lt_limit {ratio : ℚ} (hratio : 0 ≤ ratio) {exponent : Int} {places : Nat}
    (hplaces : 970 + places ≤ exponent) (hlimit : ratio * 2 ^ exponent < limit) :
    ratio * 2 ^ places < 2 ^ 54 - 1 := by
  have hunit : (0 : ℚ) < 2 ^ (970 : ℤ) := by positivity
  refine lt_of_mul_lt_mul_right ?_ hunit.le
  calc ratio * 2 ^ places * 2 ^ (970 : ℤ) = ratio * 2 ^ (970 + (places : ℤ)) := by
        rw [zpow_add₀ two_ne_zero, zpow_natCast]
        ring
    _ ≤ ratio * 2 ^ exponent := by
        have hpow := zpow_le_zpow_right₀ (one_le_two (α := ℚ)) hplaces
        gcongr
    _ < (2 ^ 54 - 1) * 2 ^ (970 : ℤ) := hlimit

/-- A significand near to a ratio below the limit has a place in the format. -/
theorem exists_normalise? (negative : Bool) {significand : Nat} {exponent : Int} {ratio : ℚ}
    (hratio : 0 ≤ ratio) (hleast : -1074 ≤ exponent)
    (hnear : |(significand : ℚ) - ratio| ≤ 1 / 2) (hhigh : ratio < 2 ^ 53)
    (hlow : exponent = -1074 ∨ 2 ^ 52 ≤ ratio) (hlimit : ratio * 2 ^ exponent < limit) :
    ∃ x, normalise? negative significand exponent = some x ∧ x.negative = negative ∧
      x.magnitude = significand * 2 ^ exponent := by
  obtain ⟨habove, hbelow⟩ := abs_le.1 hnear
  have hbits : significand ≤ 2 ^ 53 := by
    have : (significand : ℚ) < (2 ^ 53 + 1 : Nat) := by push_cast; linarith
    have : significand < 2 ^ 53 + 1 := by exact_mod_cast this
    omega
  have hlow' : exponent = -1074 ∨ 2 ^ 52 ≤ significand := by
    refine hlow.imp id fun h => ?_
    have : ((2 ^ 52 : Nat) : ℚ) < (significand + 1 : Nat) := by push_cast; linarith
    have : 2 ^ 52 < significand + 1 := by exact_mod_cast this
    omega
  have hgreatest : exponent ≤ 971 := by
    -- At a greater exponent 53 bits are too large for the format.
    by_contra h
    have hbits : (2 : ℚ) ^ 52 ≤ ratio := hlow.resolve_left (by omega)
    have hsmall : ratio * 2 ^ 2 < 2 ^ 54 - 1 :=
      mul_pow_lt_of_lt_limit hratio (by omega) hlimit
    linarith
  unfold normalise?
  simp only [Nat.pow_eq]
  by_cases hcarry : significand = 2 ^ 53
  · -- The carry moves the significand by a place; there is one above it.
    have hroom : exponent + 1 ≤ 971 := by
      by_contra h
      have hsignificand : (significand : ℚ) = 2 ^ 53 := by exact_mod_cast hcarry
      have hsmall : ratio * 2 ^ 1 < 2 ^ 54 - 1 :=
        mul_pow_lt_of_lt_limit hratio (by omega) hlimit
      linarith
    simp only [if_pos hcarry]
    rw [dif_pos ⟨by decide, by omega, hroom, Or.inl (by decide)⟩]
    refine ⟨_, rfl, rfl, ?_⟩
    have hsignificand : (significand : ℚ) = 2 ^ 53 := by exact_mod_cast hcarry
    rw [magnitude, hsignificand, zpow_add_one₀ two_ne_zero]
    push_cast
    ring
  · simp only [if_neg hcarry]
    rw [dif_pos ⟨by omega, hleast, hgreatest, hlow'.symm⟩]
    exact ⟨_, rfl, rfl, rfl⟩

/-- **Rounding a ratio times a power of two**: below the limit of the format there is a number for
it, and what is rounded off is half a unit of the last place at most. -/
theorem exists_ofScaled? (negative : Bool) (num : Nat) {den : Nat} (hden : den ≠ 0)
    (exponent : Int) (hlimit : (num : ℚ) / den * 2 ^ exponent < limit) :
    ∃ x, ofScaled? negative num den exponent = some x ∧ x.negative = negative ∧
      |x.magnitude - num / den * 2 ^ exponent| ≤
        num / den * 2 ^ exponent * 2 ^ (-53 : ℤ) + 2 ^ (-1075 : ℤ) := by
  unfold ofScaled?
  by_cases hnum : num = 0
  · refine ⟨zero negative, if_pos hnum, rfl, ?_⟩
    rw [magnitude_zero, hnum]
    norm_num
  rw [if_neg hnum]
  dsimp only
  obtain ⟨hpos, hscaled⟩ := scaled_eq num (Nat.pos_of_ne_zero hden) exponent
  have hnum' : (scaled num den exponent).1 ≠ 0 := by
    intro h
    have hnumPos : (0 : ℚ) < num := by exact_mod_cast Nat.pos_of_ne_zero hnum
    have hdenPos : (0 : ℚ) < den := by exact_mod_cast Nat.pos_of_ne_zero hden
    have : (0 : ℚ) < num / den * 2 ^ exponent := by positivity
    rw [← hscaled, h] at this
    norm_num at this
  obtain ⟨hleast, hhigh, hlow⟩ := exponentOf_bounds hnum' hpos.ne'
  set num' := (scaled num den exponent).1
  set den' := (scaled num den exponent).2
  set e := exponentOf num' den'
  obtain ⟨hpos', hscaled'⟩ := scaled_eq num' hpos (-e)
  have hnear := abs_roundDiv_sub_le (scaled num' den' (-e)).1 hpos'
  rw [hscaled'] at hnear
  have hvalue : (num' : ℚ) / den' * 2 ^ (-e) * 2 ^ e = num / den * 2 ^ exponent := by
    rw [mul_assoc, ← zpow_add₀ two_ne_zero, neg_add_cancel, zpow_zero, mul_one, hscaled]
  rw [← hvalue] at hlimit
  obtain ⟨x, hx, hsign, hmagnitude⟩ :=
    exists_normalise? negative (by positivity) hleast hnear hhigh hlow hlimit
  refine ⟨x, hx, hsign, ?_⟩
  -- The error of the significand counts in units of the exponent.
  have herror : |x.magnitude - num / den * 2 ^ exponent| ≤ 1 / 2 * 2 ^ e := by
    have hpow : (0 : ℚ) < 2 ^ e := by positivity
    rw [hmagnitude, ← hvalue, ← sub_mul, abs_mul, abs_of_pos hpow]
    gcongr
  refine herror.trans ?_
  rcases hlow with hlow | hlow
  · have hnonneg : (0 : ℚ) ≤ num / den * 2 ^ exponent * 2 ^ (-53 : ℤ) := by positivity
    have heq : (1 / 2 : ℚ) * 2 ^ e = 2 ^ (-1075 : ℤ) := by
      rw [hlow, show (-1075 : ℤ) = -1 + -1074 from rfl, zpow_add₀ two_ne_zero]
      norm_num
    linarith
  · have hnonneg : (0 : ℚ) ≤ 2 ^ (-1075 : ℤ) := by positivity
    have hpow : (1 / 2 : ℚ) * 2 ^ e ≤ num / den * 2 ^ exponent * 2 ^ (-53 : ℤ) := by
      rw [← hvalue]
      calc (1 / 2 : ℚ) * 2 ^ e = 2 ^ 52 * 2 ^ e * 2 ^ (-53 : ℤ) := by
            norm_num
            ring
        _ ≤ num' / den' * 2 ^ (-e) * 2 ^ e * 2 ^ (-53 : ℤ) := by gcongr
    linarith

/-! ## Arithmetic -/

/-- The greatest rounding error of a natural number, relative to it. -/
def relativeError : ℚ := 5 / 2 ^ 55

theorem rounding_units : (2 : ℚ) ^ (-53 : ℤ) = 4 / 2 ^ 55 ∧ (2 : ℚ) ^ (-1075 : ℤ) ≤ 1 / 2 ^ 55 := by
  have hleast : (2 : ℚ) ^ (-1075 : ℤ) ≤ 2 ^ (-55 : ℤ) :=
    zpow_le_zpow_right₀ one_le_two (by decide)
  have hunits : (2 : ℚ) ^ (-53 : ℤ) = 4 / 2 ^ 55 ∧ (2 : ℚ) ^ (-55 : ℤ) = 1 / 2 ^ 55 := by
    norm_num
  exact ⟨hunits.1, hunits.2 ▸ hleast⟩

/-- A natural number is rounded with a small relative error. -/
theorem exists_ofNat? (negative : Bool) {n : Nat} (hlimit : (n : ℚ) < limit) :
    ∃ x, ofNat? negative n = some x ∧ x.negative = negative ∧
      |x.magnitude - n| ≤ n * relativeError := by
  have hvalue : (n : ℚ) / (1 : Nat) * 2 ^ (0 : ℤ) = n := by simp
  obtain ⟨x, hx, hsign, herror⟩ :=
    exists_ofScaled? negative n one_ne_zero 0 (by rw [hvalue]; exact hlimit)
  rw [hvalue] at herror
  refine ⟨x, hx, hsign, ?_⟩
  rcases Nat.eq_zero_or_pos n with rfl | hpos
  · obtain rfl := Option.some.inj hx
    simp [magnitude_zero]
  · have hone : (1 : ℚ) ≤ n := by exact_mod_cast hpos
    obtain ⟨hlast, hleast⟩ := rounding_units
    rw [hlast] at herror
    unfold relativeError
    linarith

/-- A product below the limit is rounded. -/
theorem exists_mul? {x y : Binary64} (hlimit : x.magnitude * y.magnitude < limit) :
    ∃ z, x.mul? y = some z := by
  have hvalue : ((x.significand * y.significand : Nat) : ℚ) / (1 : Nat) *
      2 ^ (x.exponent + y.exponent) = x.magnitude * y.magnitude := by
    unfold magnitude
    rw [zpow_add₀ two_ne_zero]
    push_cast
    ring
  obtain ⟨z, hz, -, -⟩ := exists_ofScaled? (x.negative != y.negative)
    (x.significand * y.significand) one_ne_zero (x.exponent + y.exponent)
    (by rw [hvalue]; exact hlimit)
  exact ⟨z, hz⟩

/-- A quotient is rounded, and a divisor of two or more keeps a bound. -/
theorem exists_div? {x y : Binary64} {bound : ℚ} (hx : x.magnitude ≤ bound)
    (hy : 2 ≤ y.magnitude) (hone : 1 ≤ bound) (hlimit : bound < limit) :
    ∃ z, x.div? y = some z ∧ z.magnitude ≤ bound := by
  have hsignificand : y.significand ≠ 0 := by
    intro h
    rw [magnitude, h] at hy
    norm_num at hy
  have hvalue : (x.significand : ℚ) / y.significand * 2 ^ (x.exponent - y.exponent) =
      x.magnitude / y.magnitude := by
    have hne : (y.significand : ℚ) ≠ 0 := by exact_mod_cast hsignificand
    unfold magnitude
    rw [zpow_sub₀ two_ne_zero]
    field_simp
  have hquotient : x.magnitude / y.magnitude ≤ bound / 2 :=
    div_le_div₀ (by linarith) hx (by norm_num) hy
  obtain ⟨z, hz, -, herror⟩ := exists_ofScaled? (x.negative != y.negative) x.significand
    hsignificand (x.exponent - y.exponent) (by rw [hvalue]; linarith)
  rw [hvalue] at herror
  refine ⟨z, hz, ?_⟩
  obtain ⟨hlast, hleast⟩ := rounding_units
  rw [hlast] at herror
  have habove := (abs_le.1 herror).2
  linarith

end WorkloadImages.Binary64

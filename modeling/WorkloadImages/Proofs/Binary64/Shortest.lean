import WorkloadImages.Binary64.Decimal
import WorkloadImages.Proofs.Binary64.Rounding

/-!
# The size of the shortest decimal

The shortest decimal of a number is one of the reals that round to the number, so it is no more
than half a unit of the last place above it.

## Main results

* `Binary64.onGrid?_le`: what is found on a grid rounds to the number
* `Binary64.shortest_le`: the size of the shortest decimal
* `Binary64.shortest_ne_zero_or`: its digits, or no digits at all
-/

namespace WorkloadImages.Binary64

/-- The greatest real that rounds to the number. -/
def upperEnd (x : Binary64) : ℚ := (x.significand + 1 / 2) * 2 ^ x.exponent

theorem magnitude_le_upperEnd (x : Binary64) : x.magnitude ≤ x.upperEnd := by
  have hpow : (0 : ℚ) < 2 ^ x.exponent := by positivity
  unfold magnitude upperEnd
  gcongr
  linarith

/-! ## Intervals -/

theorem tenTo_eq (exponent : Int) :
    0 < (tenTo exponent).1 ∧ 0 < (tenTo exponent).2 ∧
      ((tenTo exponent).1 : ℚ) / (tenTo exponent).2 = 10 ^ exponent := by
  unfold tenTo
  split
  · next h =>
    obtain ⟨k, rfl⟩ := Int.eq_ofNat_of_zero_le h
    simp
  · next h =>
    obtain ⟨k, hk⟩ := Int.eq_ofNat_of_zero_le (by omega : 0 ≤ -exponent)
    obtain rfl : exponent = -k := by omega
    simp

theorem interval_high (x : Binary64) :
    0 < x.interval.scale ∧ (x.interval.high : ℚ) / x.interval.scale = x.upperEnd := by
  obtain ⟨hpos, hscaled⟩ := scaled_eq 1 (by decide : 0 < 4) x.exponent
  refine ⟨hpos, ?_⟩
  have hhigh : x.interval.high = (4 * x.significand + 2) * (scaled 1 4 x.exponent).1 := rfl
  have hscale : x.interval.scale = (scaled 1 4 x.exponent).2 := rfl
  rw [hhigh, hscale, upperEnd]
  push_cast at hscaled ⊢
  rw [mul_div_assoc, hscaled]
  ring

theorem interval_low_pos {x : Binary64} (hx : x.isZero = false) : 0 < x.interval.low := by
  obtain ⟨hpos, hscaled⟩ := scaled_eq 1 (by decide : 0 < 4) x.exponent
  have hunit : 0 < (scaled 1 4 x.exponent).1 := by
    rcases Nat.eq_zero_or_pos (scaled 1 4 x.exponent).1 with h | h
    · rw [h] at hscaled
      have : (0 : ℚ) < (1 : Nat) / (4 : Nat) * 2 ^ x.exponent := by positivity
      rw [← hscaled] at this
      norm_num at this
    · exact h
  have hsignificand : x.significand ≠ 0 := by simpa [isZero] using hx
  have hlow : x.interval.low =
      (4 * x.significand - if x.significand = Nat.pow 2 52 ∧ -1074 < x.exponent then 1 else 2) *
        (scaled 1 4 x.exponent).1 := rfl
  rw [hlow]
  refine Nat.mul_pos ?_ hunit
  split <;> omega

/-- A ratio in an interval lies between its ends. -/
theorem Interval.of_contains {i : Interval} {num den : Nat} (h : i.contains num den = true) :
    i.low * den ≤ num * i.scale ∧ num * i.scale ≤ i.high * den := by
  unfold contains at h
  dsimp only at h
  split at h <;> simp only [Bool.and_eq_true, decide_eq_true_eq] at h <;> omega

/-- A multiple that is found on a grid rounds to the number. -/
theorem Interval.contains_of_onGrid? {i : Interval} {exponent : Int} {multiple : Nat}
    (h : i.onGrid? exponent = some multiple) :
    i.contains (multiple * (tenTo exponent).1) (tenTo exponent).2 = true := by
  unfold onGrid? at h
  dsimp only at h
  generalize i.value * (tenTo exponent).2 / ((tenTo exponent).1 * i.scale) = below at h
  split at h
  · next hboth =>
    rw [Bool.and_eq_true] at hboth
    split at h <;> obtain rfl := Option.some.inj h
    · exact hboth.1
    · exact hboth.2
  · split at h
    · next hlower =>
      obtain rfl := Option.some.inj h
      exact hlower
    · split at h
      · next hupper =>
        obtain rfl := Option.some.inj h
        exact hupper
      · cases h

/-- What is found on a grid is a decimal that is not zero and is no more than the greatest real
that rounds to the number. -/
theorem onGrid?_le {x : Binary64} (hx : x.isZero = false) {exponent : Int} {multiple : Nat}
    (h : x.interval.onGrid? exponent = some multiple) :
    multiple ≠ 0 ∧ (multiple : ℚ) * 10 ^ exponent ≤ x.upperEnd := by
  obtain ⟨hlow, hhigh⟩ := Interval.of_contains (Interval.contains_of_onGrid? h)
  obtain ⟨hnum, hden, hten⟩ := tenTo_eq exponent
  obtain ⟨hscale, hend⟩ := interval_high x
  constructor
  · rintro rfl
    have := Nat.mul_pos (interval_low_pos hx) hden
    omega
  · have hdenQ : (0 : ℚ) < (tenTo exponent).2 := by exact_mod_cast hden
    have hscaleQ : (0 : ℚ) < x.interval.scale := by exact_mod_cast hscale
    rw [← hten, ← hend, ← mul_div_assoc, div_le_div_iff₀ hdenQ hscaleQ]
    exact_mod_cast hhigh

/-! ## Digits -/

theorem firstOnGrid_le {x : Binary64} (hx : x.isZero = false) (decade : Int) (fuel digits : Nat) :
    ((x.interval.firstOnGrid decade fuel digits).1 ≠ 0 ∨
        x.interval.firstOnGrid decade fuel digits = (0, 0)) ∧
      ((x.interval.firstOnGrid decade fuel digits).1 : ℚ) *
        10 ^ (x.interval.firstOnGrid decade fuel digits).2 ≤ x.upperEnd := by
  -- The first grid that has a multiple is used, and without one there are no digits.
  induction fuel generalizing digits with
  | zero =>
    refine ⟨Or.inr rfl, ?_⟩
    have := (magnitude_nonneg x).trans (magnitude_le_upperEnd x)
    simpa [Interval.firstOnGrid] using this
  | succ fuel ih =>
    rw [Interval.firstOnGrid]
    cases hgrid : x.interval.onGrid? (decade - digits) with
    | none => exact ih (digits + 1)
    | some multiple =>
      obtain ⟨hne, hle⟩ := onGrid?_le hx hgrid
      exact ⟨Or.inl hne, hle⟩

/-- Without the zeros at its end a decimal is the same. -/
theorem stripZeros_eq (fuel digits : Nat) (exponent : Int) :
    ((stripZeros fuel digits exponent).1 : ℚ) * 10 ^ (stripZeros fuel digits exponent).2 =
        digits * 10 ^ exponent ∧
      (digits ≠ 0 → (stripZeros fuel digits exponent).1 ≠ 0) ∧
      (digits = 0 → stripZeros fuel digits exponent = (0, exponent)) := by
  induction fuel generalizing digits exponent with
  | zero => exact ⟨rfl, id, by rintro rfl; rfl⟩
  | succ fuel ih =>
    rw [stripZeros]
    split
    · next h =>
      obtain ⟨hvalue, hne, -⟩ := ih (digits / 10) (exponent + 1)
      refine ⟨?_, fun _ => hne (by omega), fun hzero => absurd hzero h.1⟩
      have hdigits : (digits : ℚ) = (digits / 10 : Nat) * 10 := by
        exact_mod_cast (Nat.div_mul_cancel (Nat.dvd_of_mod_eq_zero h.2)).symm
      rw [hvalue, hdigits, zpow_add_one₀ (by norm_num)]
      ring
    · exact ⟨rfl, id, by rintro rfl; rfl⟩

/-- **The size of the shortest decimal**: it is no more than the greatest real that rounds to the
number. -/
theorem shortest_le (x : Binary64) : (x.shortest.1 : ℚ) * 10 ^ x.shortest.2 ≤ x.upperEnd := by
  have hnonneg := (magnitude_nonneg x).trans (magnitude_le_upperEnd x)
  unfold shortest
  cases hx : x.isZero with
  | true => simpa using hnonneg
  | false =>
    obtain ⟨-, hle⟩ := firstOnGrid_le hx (decade x.interval.value x.interval.scale) 17 1
    rw [← (stripZeros_eq 17 _ _).1] at hle
    exact hle

/-- The shortest decimal has digits, or is plainly zero. -/
theorem shortest_ne_zero_or (x : Binary64) : x.shortest.1 ≠ 0 ∨ x.shortest = (0, 0) := by
  unfold shortest
  cases hx : x.isZero with
  | true => exact Or.inr rfl
  | false =>
    obtain ⟨hzero, -⟩ := firstOnGrid_le hx (decade x.interval.value x.interval.scale) 17 1
    rcases hzero with hne | hzero
    · exact Or.inl ((stripZeros_eq 17 _ _).2.1 hne)
    · refine Or.inr ?_
      simp only [hzero, Bool.false_eq_true, if_false]
      exact (stripZeros_eq 17 0 0).2.2 rfl

end WorkloadImages.Binary64

import WorkloadImages.Proofs.Json.Numerals

/-!
# Double precision numbers read back

A number that was written is read again as a number of the format, which may be off by the last
digit. The digits that are read and their power of ten are rounded on their own, and so is their
product: as long as the decimal is a few units of the last place below the limit of the format, no
rounding reaches the limit. Three numbers are nearer to it, and are read by computation.

## Main definitions

* `Json.Numeral.magnitude`: the decimal that a numeral writes, without its sign
* `Json.reread`: the number as which a written number is read

## Main results

* `Json.Numeral.exists_float?`: a numeral well below the limit has a number
* `Json.float?_numeral`: the numeral of a number has one
-/

namespace WorkloadImages

/-! ## Digits -/

namespace Text

theorem foldl_digits (n : Nat) (digits : List Char) :
    digits.foldl (fun n c => n * 10 + digitValue c) n =
      n * 10 ^ digits.length + digitsValue digits := by
  unfold digitsValue
  induction digits generalizing n with
  | nil => simp
  | cons c digits ih =>
    rw [List.foldl_cons, List.foldl_cons, ih, ih (0 * 10 + digitValue c), List.length_cons,
      pow_succ]
    ring

theorem digitsValue_append (first second : List Char) :
    digitsValue (first ++ second) =
      digitsValue first * 10 ^ second.length + digitsValue second := by
  rw [digitsValue, List.foldl_append]
  exact foldl_digits _ second

theorem digitsValue_cons (c : Char) (digits : List Char) :
    digitsValue (c :: digits) = digitValue c * 10 ^ digits.length + digitsValue digits := by
  rw [digitsValue, List.foldl_cons, foldl_digits, Nat.zero_mul, Nat.zero_add]

theorem digitsValue_replicate (n : Nat) : digitsValue (List.replicate n '0') = 0 := by
  induction n with
  | zero => rfl
  | succ n ih =>
    rw [List.replicate_succ, digitsValue_cons, ih]
    simp [digitValue]

theorem digitsValue_lt {digits : List Char} (h : ∀ c ∈ digits, c.isDigit = true) :
    digitsValue digits < 10 ^ digits.length := by
  induction digits with
  | nil => decide
  | cons c digits ih =>
    have hrest := ih fun d hd => h d (List.mem_cons_of_mem _ hd)
    have hdigit := (Pointer.toDigits_digitValue (h c List.mem_cons_self)).1
    rw [digitsValue_cons, List.length_cons, pow_succ]
    have : digitValue c * 10 ^ digits.length ≤ 9 * 10 ^ digits.length := by gcongr; omega
    omega

end Text

/-! ## The size of a numeral -/

namespace Json

/-- The decimal that a numeral writes, without its sign. -/
def Numeral.magnitude (n : Numeral) : ℚ :=
  Text.digitsValue (n.whole ++ n.fraction) * 10 ^ (n.exponent.getD 0 - n.fraction.length)

end Json

namespace DecimalLayout

open Text (digitsValue)

/-- Wherever the point is put, the numeral writes the digits times the power of ten that its place
says. -/
theorem magnitude_numeralAt (layout : DecimalLayout) (negative : Bool) {text : List Char}
    (point : Int) (hne : text ≠ []) :
    (layout.numeralAt negative text point).magnitude =
      digitsValue text * 10 ^ (point - text.length) := by
  have hlength : 0 < text.length := List.length_pos_of_ne_nil hne
  unfold numeralAt Json.Numeral.magnitude
  by_cases hrange : layout.least ≤ point ∧ point ≤ layout.greatest
  · simp only [if_pos hrange]
    by_cases hpoint : point ≤ 0
    -- The zeros in front of the digits count for nothing.
    · simp only [if_pos hpoint, Option.getD_none, List.length_append, List.length_replicate]
      have hvalue : digitsValue (['0'] ++ (List.replicate (-point).toNat '0' ++ text)) =
          digitsValue text := by
        rw [← List.append_assoc, Text.digitsValue_append, Text.digitsValue_append,
          Text.digitsValue_replicate]
        simp [digitsValue, Text.digitValue]
      rw [hvalue]
      congr 2
      omega
    simp only [if_neg hpoint]
    by_cases hlong : text.length ≤ point.toNat
    · simp only [if_pos hlong, Option.getD_none]
      -- The zeros behind the digits and the one behind the point scale the digits.
      have hvalue : digitsValue (text ++ List.replicate (point.toNat - text.length) '0' ++ ['0']) =
          digitsValue text * 10 ^ (point.toNat - text.length + 1) := by
        rw [List.append_assoc, Text.digitsValue_append, Text.digitsValue_append,
          Text.digitsValue_replicate]
        simp [digitsValue, Text.digitValue]
      rw [hvalue]
      push_cast
      rw [mul_assoc, ← zpow_natCast, ← zpow_add₀ (by norm_num)]
      congr 2
      simp only [List.length_cons, List.length_nil]
      omega
    · simp only [if_neg hlong, Option.getD_none, List.take_append_drop, List.length_drop]
      congr 2
      omega
  · simp only [if_neg hrange, Option.getD_some, List.take_append_drop, List.length_drop]
    congr 2
    omega

/-- The numeral of a number writes no more than the greatest real that rounds to the number. -/
theorem magnitude_numeral_le (layout : DecimalLayout) (x : Binary64) :
    (layout.numeral x).magnitude ≤ x.upperEnd := by
  unfold numeral
  split
  · have := (x.magnitude_nonneg).trans x.magnitude_le_upperEnd
    simpa [Json.Numeral.magnitude, digitsValue, Text.digitValue] using this
  · dsimp only
    rw [magnitude_numeralAt layout x.negative _ Nat.toDigits_ne_nil, Pointer.digitsValue_toDigits]
    simpa using x.shortest_le

end DecimalLayout

/-! ## Reading a numeral -/

namespace Json

open Text (digitValue digitsValue)
open Binary64 (limit relativeError)

/-- The digits that a significand takes up continue it, and it keeps to its bits. -/
theorem absorb_spec (n : Nat) (cs : List Char) (hn : n < significandLimit) :
    (absorb n cs).1 < significandLimit ∧ ∃ used, cs = used ++ (absorb n cs).2 ∧
      (absorb n cs).1 = n * 10 ^ used.length + digitsValue used := by
  induction cs generalizing n with
  | nil => exact ⟨hn, [], rfl, by simp [absorb, digitsValue]⟩
  | cons c cs ih =>
    rw [absorb]
    split
    · next h =>
      obtain ⟨hlt, used, hused, hvalue⟩ := ih _ h
      refine ⟨hlt, c :: used, congrArg (c :: ·) hused, ?_⟩
      rw [hvalue, Text.digitsValue_cons, List.length_cons, pow_succ]
      ring
    · exact ⟨hn, [], rfl, by simp [digitsValue]⟩

/-- Digits that all fit a significand are all taken up. -/
theorem absorb_of_lt {n : Nat} {cs : List Char}
    (h : n * 10 ^ cs.length + digitsValue cs < significandLimit) :
    absorb n cs = (n * 10 ^ cs.length + digitsValue cs, []) := by
  induction cs generalizing n with
  | nil => simp [absorb, digitsValue]
  | cons c cs ih =>
    have hvalue : n * 10 ^ (c :: cs).length + digitsValue (c :: cs) =
        (n * 10 + digitValue c) * 10 ^ cs.length + digitsValue cs := by
      rw [Text.digitsValue_cons, List.length_cons, pow_succ]
      ring
    rw [hvalue] at h ⊢
    have hfirst : n * 10 + digitValue c < significandLimit := by
      have : (n * 10 + digitValue c) * 1 ≤ (n * 10 + digitValue c) * 10 ^ cs.length :=
        Nat.mul_le_mul_left _ (Nat.one_le_pow _ _ (by decide))
      omega
    rw [absorb, if_pos hfirst, ih h]

/-! ## Powers of ten -/

/-- A decimal of this size is read: three units of the last place below the limit. -/
def readableLimit : ℚ := (2 ^ 54 - 7) * 2 ^ (970 : ℤ)

/-- The limits as natural numbers, which are compared by computing them. -/
theorem limit_eq_natCast : limit = ((18014398509481983 * 2 ^ 970 : Nat) : ℚ) ∧
    readableLimit = ((18014398509481977 * 2 ^ 970 : Nat) : ℚ) := by
  have hpow : (2 : ℚ) ^ (970 : ℤ) = 2 ^ 970 := zpow_natCast 2 970
  unfold limit readableLimit
  rw [hpow, Nat.cast_mul, Nat.cast_mul, Nat.cast_pow]
  generalize ((2 : Nat) : ℚ) ^ 970 = unit
  norm_num

/-- A rounded significand is far below the limit. -/
theorem two_pow_lt_limit : ((2 ^ 65 : Nat) : ℚ) < limit := by
  have hgreat : 2 ^ 65 < 18014398509481983 * 2 ^ 970 := by decide +kernel
  rw [limit_eq_natCast.1]
  exact Nat.cast_lt.2 hgreat

theorem ten_pow_lt_limit {power : Nat} (h : power ≤ greatestPower) : (10 : ℚ) ^ power < limit := by
  have hgreatest : 10 ^ 308 < 18014398509481983 * 2 ^ 970 := by decide +kernel
  calc (10 : ℚ) ^ power ≤ 10 ^ 308 := pow_le_pow_right₀ (by norm_num) h
    _ = ((10 ^ 308 : Nat) : ℚ) := (Nat.cast_pow 10 308).symm
    _ < limit := by
      rw [limit_eq_natCast.1]
      exact Nat.cast_lt.2 hgreatest

/-- A power of ten that a number is scaled by is rounded with a small relative error. -/
theorem exists_powerOfTen? {power : Nat} (h : power ≤ greatestPower) :
    ∃ y, Binary64.powerOfTen? power = some y ∧
      |y.magnitude - 10 ^ power| ≤ 10 ^ power * relativeError := by
  have hcast : ((Nat.pow 10 power : Nat) : ℚ) = 10 ^ power := by simp
  obtain ⟨y, hy, -, herror⟩ := Binary64.exists_ofNat? false
    (n := Nat.pow 10 power) (by rw [hcast]; exact ten_pow_lt_limit h)
  exact ⟨y, hy, by rwa [hcast] at herror⟩

theorem readableLimit_rounded_lt : readableLimit * (1 + relativeError) ^ 2 < limit := by
  have hpos : (0 : ℚ) < 2 ^ (970 : ℤ) := by positivity
  have hfactor : ((2 : ℚ) ^ 54 - 7) * (1 + relativeError) ^ 2 < 2 ^ 54 - 1 := by
    unfold relativeError
    norm_num
  unfold readableLimit limit
  calc ((2 : ℚ) ^ 54 - 7) * 2 ^ (970 : ℤ) * (1 + relativeError) ^ 2
      = ((2 : ℚ) ^ 54 - 7) * (1 + relativeError) ^ 2 * 2 ^ (970 : ℤ) := by ring
    _ < (2 ^ 54 - 1) * 2 ^ (970 : ℤ) := by gcongr

theorem relativeError_nonneg : 0 ≤ relativeError := by
  unfold relativeError
  norm_num

/-- A rounded significand is multiplied by a power of ten if the product is well below the
limit. -/
theorem exists_multiplyByTens {x : Binary64} {significand power : Nat}
    (hx : |x.magnitude - significand| ≤ significand * relativeError)
    (hsize : (significand : ℚ) * 10 ^ power ≤ readableLimit) :
    ∃ y, multiplyByTens x power = some y := by
  unfold multiplyByTens
  split
  · next hpower =>
    obtain ⟨y, hy, hyError⟩ := exists_powerOfTen? hpower
    have hxAbove := (abs_le.1 hx).2
    have hyAbove := (abs_le.1 hyError).2
    have hnonneg := relativeError_nonneg
    have hproduct : x.magnitude * y.magnitude < limit := by
      calc x.magnitude * y.magnitude
          ≤ (significand * (1 + relativeError)) * (10 ^ power * (1 + relativeError)) := by
            have hxNonneg := x.magnitude_nonneg
            have hyNonneg := y.magnitude_nonneg
            gcongr <;> linarith
        _ = significand * 10 ^ power * (1 + relativeError) ^ 2 := by ring
        _ ≤ readableLimit * (1 + relativeError) ^ 2 := by gcongr
        _ < limit := readableLimit_rounded_lt
    obtain ⟨z, hz⟩ := Binary64.exists_mul? hproduct
    exact ⟨z, by rw [hy, Option.bind_some, hz]⟩
  · next hpower =>
    -- By so great a power only zero is multiplied.
    have hzero : significand = 0 := by
      by_contra hne
      have hone : (1 : ℚ) ≤ significand := by exact_mod_cast Nat.one_le_iff_ne_zero.2 hne
      have hgreat : 18014398509481977 * 2 ^ 970 < 10 ^ 309 := by decide +kernel
      have hlarge : readableLimit < ((10 ^ 309 : Nat) : ℚ) := by
        rw [limit_eq_natCast.2]
        exact Nat.cast_lt.2 hgreat
      rw [Nat.cast_pow, Nat.cast_ofNat] at hlarge
      have hpow : (10 : ℚ) ^ 309 ≤ 10 ^ power :=
        pow_le_pow_right₀ (by norm_num) (Nat.not_le.1 hpower)
      have hproduct : (10 : ℚ) ^ power ≤ significand * 10 ^ power :=
        le_mul_of_one_le_left (by positivity) hone
      exact absurd (hlarge.trans_le (hpow.trans (hproduct.trans hsize))) (lt_irrefl _)
    subst hzero
    have hmagnitude : x.magnitude = 0 := by simpa using hx
    exact ⟨x, if_pos (Binary64.isZero_of_magnitude hmagnitude)⟩

/-- A power of ten is two or more. -/
theorem exists_powerOfTen?_ge {power : Nat} (hpos : 0 < power) (h : power ≤ greatestPower) :
    ∃ y, Binary64.powerOfTen? power = some y ∧ 2 ≤ y.magnitude := by
  obtain ⟨y, hy, herror⟩ := exists_powerOfTen? h
  have hbelow := (abs_le.1 herror).1
  have hten : (10 : ℚ) ^ 1 ≤ 10 ^ power := pow_le_pow_right₀ (by norm_num) hpos
  have hsmall : relativeError ≤ 1 / 2 := by
    unfold relativeError
    norm_num
  have : (10 : ℚ) ^ power * relativeError ≤ 10 ^ power * (1 / 2) := by gcongr
  exact ⟨y, hy, by linarith⟩

theorem exists_divideTimes (times : Nat) {x : Binary64} {bound : ℚ} (hx : x.magnitude ≤ bound)
    (hone : 1 ≤ bound) (hlimit : bound < limit) :
    ∃ y, divideTimes times x = some y ∧ y.magnitude ≤ bound := by
  -- A divisor of two or more makes up for the rounding, so the bound holds all the way.
  induction times generalizing x with
  | zero => exact ⟨x, rfl, hx⟩
  | succ times ih =>
    rw [divideTimes]
    split
    · exact ⟨x, rfl, hx⟩
    · obtain ⟨y, hy, htwo⟩ := exists_powerOfTen?_ge (by decide) (le_refl greatestPower)
      obtain ⟨z, hz, hbound⟩ := Binary64.exists_div? hx htwo hone hlimit
      rw [hy, Option.bind_some, hz, Option.bind_some]
      exact ih hbound

/-- A number is divided by any power of ten. -/
theorem exists_divideByTens {x : Binary64} {bound : ℚ} (hx : x.magnitude ≤ bound)
    (hone : 1 ≤ bound) (hlimit : bound < limit) {power : Nat} (hpower : 0 < power) :
    ∃ y, divideByTens x power = some y := by
  obtain ⟨quotient, hquotient, hbound⟩ :=
    exists_divideTimes ((power - 1) / greatestPower) hx hone hlimit
  have hrest : 0 < power - (power - 1) / greatestPower * greatestPower ∧
      power - (power - 1) / greatestPower * greatestPower ≤ greatestPower := by
    have := Nat.div_add_mod' (power - 1) greatestPower
    have := Nat.mod_lt (power - 1) (by decide : 0 < greatestPower)
    omega
  obtain ⟨y, hy, htwo⟩ := exists_powerOfTen?_ge hrest.1 hrest.2
  obtain ⟨z, hz, -⟩ := Binary64.exists_div? hbound htwo hone hlimit
  refine ⟨z, ?_⟩
  unfold divideByTens
  simp only [hquotient, hy, Option.bind_some, hz]

/-! ## Numbers of numerals -/

namespace Numeral

variable {n : Numeral}

/-- Digits that do not fit a significand are left out, which makes the decimal smaller. -/
theorem absorbed_le_magnitude (hwhole : digitsValue n.whole < significandLimit) :
    ((absorb (digitsValue n.whole) n.fraction).1 : ℚ) * 10 ^ (n.exponent.getD 0 -
        n.fraction.length + (absorb (digitsValue n.whole) n.fraction).2.length) ≤
      n.magnitude := by
  obtain ⟨-, used, hused, hvalue⟩ := absorb_spec (digitsValue n.whole) n.fraction hwhole
  set significand := (absorb (digitsValue n.whole) n.fraction).1
  set unused := (absorb (digitsValue n.whole) n.fraction).2
  have hdigits : significand * 10 ^ unused.length ≤ digitsValue (n.whole ++ n.fraction) := by
    rw [hused, ← List.append_assoc, Text.digitsValue_append, Text.digitsValue_append, hvalue]
    exact Nat.le_add_right _ _
  have hsplit : (10 : ℚ) ^ (n.exponent.getD 0 - n.fraction.length + unused.length) =
      10 ^ unused.length * 10 ^ (n.exponent.getD 0 - n.fraction.length) := by
    rw [zpow_add₀ (by norm_num), zpow_natCast, mul_comm]
  rw [hsplit, ← mul_assoc]
  unfold magnitude
  gcongr
  exact_mod_cast hdigits

/-- **A numeral well below the limit of the format has a number**, if the digits before its point
fit a significand. -/
theorem exists_float? (h : n.WellFormed) (hwhole : n.whole.length ≤ 16)
    (hsize : n.magnitude ≤ readableLimit) : ∃ x, n.float? = some x := by
  have hwholeLt : digitsValue n.whole < significandLimit := by
    have hdigits := Text.digitsValue_lt h.whole_digits
    have : 10 ^ n.whole.length ≤ 10 ^ 16 := Nat.pow_le_pow_right (by decide) hwhole
    have : 10 ^ 16 < significandLimit := by decide
    omega
  have habsorb : absorb 0 n.whole = (digitsValue n.whole, []) := by
    have hroom : 0 * 10 ^ n.whole.length + digitsValue n.whole < significandLimit := by
      simpa using hwholeLt
    simpa using absorb_of_lt hroom
  obtain ⟨hlt, -⟩ := absorb_spec (digitsValue n.whole) n.fraction hwholeLt
  have hdecimal := absorbed_le_magnitude hwholeLt
  set significand := (absorb (digitsValue n.whole) n.fraction).1
  set unused := (absorb (digitsValue n.whole) n.fraction).2
  set exponent : Int :=
    (([] : List Char).length : Int) - (n.fraction.length - unused.length) + n.exponent.getD 0
    with hexponent
  have hplaces : n.exponent.getD 0 - n.fraction.length + unused.length = exponent := by
    simp only [hexponent, List.length_nil]
    omega
  rw [hplaces] at hdecimal
  have hlimit := two_pow_lt_limit
  have hbits : (significand : ℚ) ≤ (2 ^ 64 : Nat) := by exact_mod_cast hlt.le
  obtain ⟨x, hx, -, herror⟩ := Binary64.exists_ofNat? n.negative (n := significand) (by
    push_cast at hbits hlimit
    linarith)
  have hfloat : n.float? = if 0 ≤ exponent then multiplyByTens x exponent.toNat
      else divideByTens x (-exponent).toNat := by
    unfold float?
    simp only [habsorb]
    rw [hx]
  rw [hfloat]
  split
  · next hpos =>
    refine exists_multiplyByTens herror (le_trans (le_of_eq ?_) (hdecimal.trans hsize))
    rw [← zpow_natCast, Int.toNat_of_nonneg hpos]
  · next hneg =>
    have habove := (abs_le.1 herror).2
    have hsmall : (significand : ℚ) * relativeError ≤ significand * 1 := by
      have : relativeError ≤ 1 := by
        unfold relativeError
        norm_num
      gcongr
    have hbound : x.magnitude ≤ (2 ^ 65 : Nat) := by
      push_cast at hbits ⊢
      linarith
    exact exists_divideByTens hbound (by norm_num) hlimit (by omega)

end Numeral

/-! ## Numbers that were written -/

theorem length_whole_numeral (x : Binary64) : (decimalLayout.numeral x).whole.length ≤ 16 := by
  unfold DecimalLayout.numeral
  split
  · exact Nat.le_of_ble_eq_true rfl
  dsimp only
  unfold DecimalLayout.numeralAt
  split
  · next hrange =>
    have hgreatest : _ ≤ (16 : Int) := hrange.2
    split
    · simp
    · split
      · simp only [List.length_append, List.length_replicate]
        omega
      · simp only [List.length_take]
        omega
  · simp only [List.length_take]
    omega

/-- The greatest number of the format, and the two next to it. -/
theorem isSome_float?_greatest : ∀ negative,
    ((decimalLayout.numeral ⟨negative, 2 ^ 53 - 1, 971, by decide⟩).float?).isSome = true ∧
      ((decimalLayout.numeral ⟨negative, 2 ^ 53 - 2, 971, by decide⟩).float?).isSome = true ∧
      ((decimalLayout.numeral ⟨negative, 2 ^ 53 - 3, 971, by decide⟩).float?).isSome = true := by
  decide +kernel

/-- All other numbers are well below the limit. -/
theorem upperEnd_le_readableLimit {x : Binary64}
    (h : x.exponent = 971 → x.significand < 2 ^ 53 - 3) : x.upperEnd ≤ readableLimit := by
  obtain ⟨hbits, -, hgreatest, -⟩ := x.inFormat
  rw [Nat.pow_eq] at hbits
  unfold Binary64.upperEnd readableLimit
  rcases hgreatest.lt_or_eq with hlt | heq
  · have hsignificand : (x.significand : ℚ) ≤ (2 ^ 53 : Nat) := by exact_mod_cast hbits.le
    have hpow : (2 : ℚ) ^ x.exponent ≤ 2 ^ (970 : ℤ) := zpow_le_zpow_right₀ one_le_two (by omega)
    generalize (2 : ℚ) ^ (970 : ℤ) = unit at hpow
    push_cast at hsignificand
    gcongr
    linarith
  · have hsmall : x.significand ≤ 9007199254740988 := by
      have := h heq
      omega
    have hpow : (2 : ℚ) ^ x.exponent = 2 * 2 ^ (970 : ℤ) := by
      rw [heq, show (971 : ℤ) = 1 + 970 from rfl, zpow_add₀ two_ne_zero, zpow_one]
    have hpos : (0 : ℚ) < 2 ^ (970 : ℤ) := by positivity
    rw [hpow, ← mul_assoc]
    gcongr
    have hsmall : (x.significand : ℚ) ≤ 9007199254740988 := by exact_mod_cast hsmall
    linarith

/-- **The numeral of a number has a number**: none is written too large to be read. -/
theorem isSome_float?_numeral (x : Binary64) :
    ((decimalLayout.numeral x).float?).isSome = true := by
  by_cases h : x.exponent = 971 → x.significand < 2 ^ 53 - 3
  · obtain ⟨y, hy⟩ := Numeral.exists_float? (decimalLayout.wellFormed_numeral x)
      (length_whole_numeral x)
      ((decimalLayout.magnitude_numeral_le x).trans (upperEnd_le_readableLimit h))
    rw [hy]
    rfl
  · obtain ⟨negative, significand, exponent, hformat⟩ := x
    obtain ⟨hone, htwo, hthree⟩ := isSome_float?_greatest negative
    simp only [Classical.not_imp, not_lt] at h
    obtain ⟨rfl, hleast⟩ := h
    have hbits : significand < 2 ^ 53 := hformat.1
    obtain rfl | rfl | rfl : significand = 2 ^ 53 - 1 ∨ significand = 2 ^ 53 - 2 ∨
        significand = 2 ^ 53 - 3 := by omega
    · exact hone
    · exact htwo
    · exact hthree

/-- The number as which a written number is read. -/
def reread (x : Binary64) : Binary64 :=
  ((decimalLayout.numeral x).float?).get (isSome_float?_numeral x)

theorem float?_numeral (x : Binary64) : (decimalLayout.numeral x).float? = some (reread x) :=
  (Option.some_get _).symm

end Json

end WorkloadImages

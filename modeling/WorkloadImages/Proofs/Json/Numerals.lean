import WorkloadImages.Json.Literal
import WorkloadImages.Json.Printer
import WorkloadImages.Proofs.Binary64.Shortest
import WorkloadImages.Proofs.Json.Pointer

/-!
# Numbers written and read back

The text of a number as a numeral. A numeral whose digits stand as the grammar wants them is read
from its text, whatever follows that is no part of a number. Integers and double precision numbers
are both written as such numerals.

## Main definitions

* `Json.Numeral.text`: the text of a numeral
* `Json.Numeral.WellFormed`: digits only, and no zero in front of another digit
* `Json.Numeral.ofInt`, `DecimalLayout.numeral`: the numerals as which numbers are written

## Main results

* `Json.readNumeral_text`: a well-formed numeral is read from its text
* `Json.Numeral.integer?_ofInt`: an integer of 64 bits is the one of its numeral
* `DecimalLayout.write_eq`: a double precision number is written as its numeral
-/

namespace WorkloadImages

namespace Json

/-! ## The text of a numeral -/

namespace Numeral

/-- The text of a fraction. -/
def fractionText (digits : List Char) : List Char := if digits = [] then [] else '.' :: digits

/-- The text of an exponent, with a sign in front of one that is not negative if `plus`. -/
def exponentText (plus : Bool) : Option Int → List Char
  | none => []
  | some e =>
    'e' :: (if e < 0 then ['-'] else if plus then ['+'] else []) ++ Nat.toDigits 10 e.natAbs

/-- The text of a numeral. -/
def text (plus : Bool) (n : Numeral) : List Char :=
  (if n.negative then ['-'] else []) ++ n.whole ++ fractionText n.fraction ++
    exponentText plus n.exponent

/-- The digits are digits, and zero stands in front of the point alone only. -/
structure WellFormed (n : Numeral) : Prop where
  whole_ne_nil : n.whole ≠ []
  whole_digits : ∀ c ∈ n.whole, c.isDigit = true
  fraction_digits : ∀ c ∈ n.fraction, c.isDigit = true
  leading : n.whole = ['0'] ∨ n.whole.head? ≠ some '0'

end Numeral

/-- A text that goes on with nothing that could be a part of a number before it. -/
def EndsNumber (rest : List Char) : Prop :=
  ∀ c, rest.head? = some c → c.isDigit = false ∧ c ≠ '.' ∧ c ≠ 'e' ∧ c ≠ 'E'

/-! ## Reading the parts -/

/-- Digits are read up to the first character that is none. -/
theorem readDigits_append {digits : List Char} (hne : digits ≠ [])
    (hdigits : ∀ c ∈ digits, c.isDigit = true) {rest : List Char}
    (hrest : ∀ c, rest.head? = some c → c.isDigit = false) :
    readDigits (digits ++ rest) = some (digits, rest) := by
  have hstop : rest.takeWhile Char.isDigit = [] ∧ rest.dropWhile Char.isDigit = rest := by
    cases rest with
    | nil => exact ⟨rfl, rfl⟩
    | cons c cs => simp [hrest c rfl]
  unfold readDigits
  rw [List.takeWhile_append_of_pos hdigits, List.dropWhile_append_of_pos hdigits, hstop.1, hstop.2,
    List.append_nil]
  cases digits with
  | nil => exact absurd rfl hne
  | cons => rfl

theorem readWhole_append {n : Numeral} (h : n.WellFormed) {rest : List Char}
    (hrest : ∀ c, rest.head? = some c → c.isDigit = false) :
    readWhole (n.whole ++ rest) = some (n.whole, rest) := by
  rcases h.leading with hzero | hlead
  · rw [hzero]
    rfl
  · have hdigits := readDigits_append h.whole_ne_nil h.whole_digits hrest
    rw [readWhole]
    · exact hdigits
    · intro cs hcs
      cases hwhole : n.whole with
      | nil => exact absurd hwhole h.whole_ne_nil
      | cons c digits =>
        rw [hwhole, List.cons_append] at hcs
        rw [hwhole, (List.cons.inj hcs).1] at hlead
        exact hlead rfl

theorem readFraction_append {digits : List Char} (hdigits : ∀ c ∈ digits, c.isDigit = true)
    {rest : List Char} (hrest : ∀ c, rest.head? = some c → c.isDigit = false ∧ c ≠ '.') :
    readFraction (Numeral.fractionText digits ++ rest) = some (digits, rest) := by
  unfold Numeral.fractionText
  split
  · next hnil =>
    subst hnil
    rw [List.nil_append, readFraction]
    rintro cs rfl
    exact (hrest '.' rfl).2 rfl
  · next hne => exact readDigits_append hne hdigits fun c hc => (hrest c hc).1

/-- An exponent is read without a sign: a digit is none. -/
theorem readExponent_of_readDigits {cs digits rest : List Char}
    (h : readDigits cs = some (digits, rest)) :
    readExponent ('e' :: cs) = some (some (Text.digitsValue digits : Int), rest) := by
  rcases cs with - | ⟨c, cs⟩
  · cases h
  have hsign : c ≠ '-' ∧ c ≠ '+' := by
    constructor <;> rintro rfl <;> cases h
  have hminus : ∀ after, c :: cs = '-' :: after → False := fun _ e =>
    hsign.1 (List.cons.inj e).1
  have hplus : ∀ after, c :: cs = '+' :: after → False := fun _ e =>
    hsign.2 (List.cons.inj e).1
  simp only [readExponent, true_or, if_true, h, Bool.false_eq_true, if_false]

/-- An exponent is read with its sign; a plus sign says nothing. -/
theorem readExponent_append (plus : Bool) (exponent : Int) {rest : List Char}
    (hrest : ∀ c, rest.head? = some c → c.isDigit = false) :
    readExponent (Numeral.exponentText plus (some exponent) ++ rest) =
      some (some exponent, rest) := by
  have hall : ∀ c ∈ Nat.toDigits 10 exponent.natAbs, c.isDigit = true := fun c hc =>
    Nat.isDigit_of_mem_toDigits (by decide) (by decide) hc
  have hdigits := readDigits_append Nat.toDigits_ne_nil hall hrest
  have hvalue := Pointer.digitsValue_toDigits exponent.natAbs
  rw [Numeral.exponentText]
  split
  · next hneg =>
    have hnat : -(exponent.natAbs : Int) = exponent := by omega
    simp only [List.cons_append, List.nil_append, readExponent, true_or, if_true, hdigits, hvalue,
      hnat]
  · next hpos =>
    have hnat : (exponent.natAbs : Int) = exponent := by omega
    cases plus with
    | true =>
      simp only [List.cons_append, List.nil_append, readExponent, true_or, if_true, hdigits,
        hvalue, hnat, Bool.false_eq_true, if_false]
    | false =>
      have hread := readExponent_of_readDigits hdigits
      rw [hvalue, hnat] at hread
      exact hread

/-- The parts of a number are read one after the other, behind its sign. -/
theorem readNumeral_of_parts (negative : Bool) {whole fraction cs afterWhole afterFraction rest :
    List Char} {exponent : Option Int} (hsign : cs.head? ≠ some '-')
    (hwhole : readWhole cs = some (whole, afterWhole))
    (hfraction : readFraction afterWhole = some (fraction, afterFraction))
    (hexponent : readExponent afterFraction = some (exponent, rest)) :
    readNumeral ((if negative then ['-'] else []) ++ cs) =
      some (⟨negative, whole, fraction, exponent⟩, rest) := by
  unfold readNumeral
  cases negative with
  | true => simp only [if_true, List.singleton_append, hwhole, hfraction, hexponent]
  | false =>
    have hminus : ∀ after, cs = '-' :: after → False := by
      rintro after rfl
      exact hsign rfl
    simp only [Bool.false_eq_true, if_false, List.nil_append, hwhole, hfraction, hexponent]

/-- **A well-formed numeral is read from its text**, whatever follows that is no part of it. -/
theorem readNumeral_text (plus : Bool) {n : Numeral} (h : n.WellFormed) {rest : List Char}
    (hrest : EndsNumber rest) : readNumeral (n.text plus ++ rest) = some (n, rest) := by
  -- What is left after each part does not begin with what could belong to the part.
  have hexponent : readExponent (Numeral.exponentText plus n.exponent ++ rest) =
      some (n.exponent, rest) := by
    cases n.exponent with
    | none =>
      cases rest with
      | nil => rfl
      | cons c cs =>
        obtain ⟨-, -, hlower, hupper⟩ := hrest c rfl
        simp [Numeral.exponentText, readExponent, hlower, hupper]
    | some e => exact readExponent_append plus e fun c hc => (hrest c hc).1
  have hafter : ∀ c, (Numeral.exponentText plus n.exponent ++ rest).head? = some c →
      c.isDigit = false ∧ c ≠ '.' := by
    intro c hc
    cases hn : n.exponent with
    | none =>
      rw [hn] at hc
      exact ⟨(hrest c hc).1, (hrest c hc).2.1⟩
    | some e =>
      rw [hn] at hc
      obtain rfl : 'e' = c := Option.some.inj hc
      decide
  have hfraction := readFraction_append h.fraction_digits hafter
  have hpoint : ∀ c, (Numeral.fractionText n.fraction ++
      (Numeral.exponentText plus n.exponent ++ rest)).head? = some c → c.isDigit = false := by
    intro c hc
    unfold Numeral.fractionText at hc
    split at hc
    · exact (hafter c hc).1
    · obtain rfl : '.' = c := Option.some.inj hc
      decide
  have hwhole := readWhole_append h hpoint
  have hsign : (n.whole ++ (Numeral.fractionText n.fraction ++
      (Numeral.exponentText plus n.exponent ++ rest))).head? ≠ some '-' := by
    obtain ⟨c, cs, hcons⟩ := List.exists_cons_of_ne_nil h.whole_ne_nil
    rw [hcons]
    rintro hc
    obtain rfl : c = '-' := Option.some.inj hc
    have := h.whole_digits '-' (by rw [hcons]; exact List.mem_cons_self)
    cases this
  rw [Numeral.text, List.append_assoc, List.append_assoc, List.append_assoc]
  exact readNumeral_of_parts n.negative hsign hwhole hfraction hexponent

/-! ## Integers -/

namespace Numeral

/-- The numeral of an integer. -/
def ofInt (n : Int) : Numeral := ⟨n < 0, Nat.toDigits 10 n.natAbs, [], none⟩

/-- The digits of a natural number stand as the grammar wants them. -/
theorem leading_toDigits (n : Nat) :
    Nat.toDigits 10 n = ['0'] ∨ (Nat.toDigits 10 n).head? ≠ some '0' := by
  by_cases h : n = 0
  · exact Or.inl (by rw [h]; rfl)
  · obtain ⟨c, cs, hdigits, hc⟩ := Pointer.toDigits_eq_cons h
    rw [hdigits]
    exact Or.inr fun hhead => hc (Option.some.inj hhead)

theorem isDigit_of_mem_toDigits {n : Nat} : ∀ c ∈ Nat.toDigits 10 n, c.isDigit = true :=
  fun _ hc => Nat.isDigit_of_mem_toDigits (by decide) (by decide) hc

theorem wellFormed_ofInt (n : Int) : (ofInt n).WellFormed where
  whole_ne_nil := Nat.toDigits_ne_nil
  whole_digits := isDigit_of_mem_toDigits
  fraction_digits := fun _ hc => nomatch hc
  leading := leading_toDigits n.natAbs

/-- An integer is written as its numeral. -/
theorem text_ofInt (plus : Bool) (n : Int) : (ofInt n).text plus = (toString n).toList := by
  cases n with
  | ofNat n =>
    have hsign : decide (Int.ofNat n < 0) = false := by simp
    simp only [text, ofInt, hsign, fractionText, exponentText, if_true, List.append_nil,
      Bool.false_eq_true, if_false, List.nil_append]
    exact (Nat.toList_repr).symm
  | negSucc n =>
    have hsign : decide (Int.negSucc n < 0) = true := by simp [Int.negSucc_lt_zero]
    simp only [text, ofInt, hsign, fractionText, exponentText, Int.natAbs_negSucc, if_true,
      List.append_nil, List.singleton_append]
    have htext : toString (Int.negSucc n) = "-" ++ Nat.repr (n + 1) := rfl
    rw [htext, String.toList_append, Nat.toList_repr]
    rfl

/-- **An integer of 64 bits** with or without a sign is the one of its numeral. -/
theorem integer?_ofInt {n : Int} (hlow : -(Nat.pow 2 63 : Nat) ≤ n)
    (hhigh : n < (Nat.pow 2 64 : Nat)) : (ofInt n).integer? = some n := by
  rw [Nat.pow_eq] at hlow hhigh
  have hvalue := Pointer.digitsValue_toDigits n.natAbs
  unfold integer?
  simp only [ofInt, hvalue, ne_eq, not_true_eq_false, or_self, if_false, decide_eq_true_eq,
    significandLimit, Nat.pow_eq]
  split
  · next hneg =>
    rw [if_pos (by omega), Option.some.injEq]
    omega
  · next hpos =>
    rw [if_pos (by omega), Option.some.injEq]
    omega

end Numeral

end Json

/-! ## Double precision numbers -/

namespace DecimalLayout

/-- The numeral of digits with the point at a place counted from before the first of them. -/
def numeralAt (layout : DecimalLayout) (negative : Bool) (text : List Char) (point : Int) :
    Json.Numeral :=
  if layout.least ≤ point ∧ point ≤ layout.greatest then
    if point ≤ 0 then ⟨negative, ['0'], List.replicate (-point).toNat '0' ++ text, none⟩
    else if text.length ≤ point.toNat then
      ⟨negative, text ++ List.replicate (point.toNat - text.length) '0', ['0'], none⟩
    else ⟨negative, text.take point.toNat, text.drop point.toNat, none⟩
  else ⟨negative, text.take 1, text.drop 1, some (point - 1)⟩

/-- The numeral as which a number is written. -/
def numeral (layout : DecimalLayout) (x : Binary64) : Json.Numeral :=
  if x.isZero then ⟨x.negative, ['0'], ['0'], none⟩
  else
    let text := Nat.toDigits 10 x.shortest.1
    layout.numeralAt x.negative text (text.length + x.shortest.2)

/-- **A double precision number is written** as its numeral. -/
theorem write_eq (layout : DecimalLayout) (x : Binary64) :
    layout.write x = (layout.numeral x).text layout.plus := by
  unfold write numeral
  by_cases hzero : x.isZero = true
  · simp only [hzero, if_true, Json.Numeral.text, Json.Numeral.fractionText,
      Json.Numeral.exponentText, List.append_assoc, List.append_nil]
    rfl
  simp only [if_neg hzero]
  have hne : Nat.toDigits 10 x.shortest.1 ≠ [] := Nat.toDigits_ne_nil
  generalize Nat.toDigits 10 x.shortest.1 = text at hne ⊢
  generalize (text.length : Int) + x.shortest.2 = point
  unfold numeralAt
  by_cases hrange : layout.least ≤ point ∧ point ≤ layout.greatest
  · simp only [if_pos hrange]
    -- The point stands in front of all digits, behind them or among them.
    by_cases hpoint : point ≤ 0
    · simp [if_pos hpoint, Json.Numeral.text, Json.Numeral.fractionText,
        Json.Numeral.exponentText, hne]
    simp only [if_neg hpoint]
    by_cases hlength : text.length ≤ point.toNat
    · simp [if_pos hlength, Json.Numeral.text, Json.Numeral.fractionText,
        Json.Numeral.exponentText]
    · have hdrop : text.drop point.toNat ≠ [] := by simpa using hlength
      simp only [if_neg hlength, Json.Numeral.text, Json.Numeral.fractionText, if_neg hdrop,
        Json.Numeral.exponentText, List.append_assoc, List.append_nil]
  · simp only [if_neg hrange]
    -- A single digit has no point behind it.
    match text, hne with
    | [digit], _ => simp [Json.Numeral.text, Json.Numeral.fractionText, Json.Numeral.exponentText]
    | digit :: next :: rest, _ =>
      simp [Json.Numeral.text, Json.Numeral.fractionText, Json.Numeral.exponentText]

/-- A number is written with a fraction or an exponent, and so is not taken for an integer. -/
theorem integer?_numeral (layout : DecimalLayout) (x : Binary64) :
    (layout.numeral x).integer? = none := by
  have hmarked : (layout.numeral x).fraction ≠ [] ∨ (layout.numeral x).exponent ≠ none := by
    unfold numeral
    split
    · exact Or.inl (List.cons_ne_nil _ _)
    unfold numeralAt
    dsimp only
    split
    · split
      · exact Or.inl (by simp [Nat.toDigits_ne_nil])
      · split
        · exact Or.inl (List.cons_ne_nil _ _)
        · next hlength => exact Or.inl (by simpa using hlength)
    · exact Or.inr (Option.some_ne_none _)
  unfold Json.Numeral.integer?
  rw [if_pos hmarked]

theorem isDigit_of_mem_replicate {n : Nat} : ∀ c ∈ List.replicate n '0', c.isDigit = true := by
  intro c hc
  rw [(List.mem_replicate.1 hc).2]
  rfl

/-- Digits without a leading zero have a well-formed numeral, wherever the point is put; a lone zero
has one if the point is put behind it. -/
theorem wellFormed_numeralAt (layout : DecimalLayout) (negative : Bool) {text : List Char}
    {point : Int} (hne : text ≠ []) (hdigits : ∀ c ∈ text, c.isDigit = true)
    (hlead : text.head? ≠ some '0' ∨ text = ['0'] ∧ point = 1) :
    (layout.numeralAt negative text point).WellFormed := by
  -- Where digits are cut off, the first one stays.
  have hzero : ∀ n, 0 < n → text.take n = ['0'] ∨ (text.take n).head? ≠ some '0' := by
    intro n hn
    rcases hlead with hlead | ⟨rfl, -⟩
    · rw [List.head?_take, if_neg hn.ne']
      exact Or.inr hlead
    · exact Or.inl (List.take_of_length_le hn)
  have htake : ∀ n, 0 < n → text.take n ≠ [] := by
    intro n hn h
    rcases List.take_eq_nil_iff.1 h with h | h
    · exact hn.ne' h
    · exact hne h
  unfold numeralAt
  split
  · split
    · exact ⟨List.cons_ne_nil _ _, by simp, by
        intro c hc
        exact (List.mem_append.1 hc).elim (isDigit_of_mem_replicate c) (hdigits c), Or.inl rfl⟩
    · next hpoint =>
      split
      · next hlength =>
        refine ⟨by simp [hne], fun c hc => ?_, by simp, ?_⟩
        · exact (List.mem_append.1 hc).elim (hdigits c) (isDigit_of_mem_replicate c)
        · rcases hlead with hlead | ⟨rfl, rfl⟩
          · rw [List.head?_append_of_ne_nil _ hne]
            exact Or.inr hlead
          · exact Or.inl rfl
      · exact ⟨htake _ (by omega), fun c hc => hdigits c (List.mem_of_mem_take hc),
          fun c hc => hdigits c (List.mem_of_mem_drop hc), hzero _ (by omega)⟩
  · exact ⟨htake _ one_pos, fun c hc => hdigits c (List.mem_of_mem_take hc),
      fun c hc => hdigits c (List.mem_of_mem_drop hc), hzero _ one_pos⟩

/-- **The numeral of a number** is well formed. -/
theorem wellFormed_numeral (layout : DecimalLayout) (x : Binary64) :
    (layout.numeral x).WellFormed := by
  unfold numeral
  split
  · exact ⟨List.cons_ne_nil _ _, by simp, by simp, Or.inl rfl⟩
  refine wellFormed_numeralAt layout x.negative Nat.toDigits_ne_nil
    Json.Numeral.isDigit_of_mem_toDigits ?_
  rcases x.shortest_ne_zero_or with hne | hzero
  · obtain ⟨c, cs, hdigits, hc⟩ := Pointer.toDigits_eq_cons hne
    rw [hdigits]
    exact Or.inl fun hhead => hc (Option.some.inj hhead)
  · rw [hzero]
    exact Or.inr ⟨rfl, rfl⟩

end DecimalLayout

end WorkloadImages

import WorkloadImages.Json.Pointer
import WorkloadImages.Proofs.Text.Cut

/-!
# Reading pointers back

A pointer is read back from its text: escaping leaves no slash in a token, so the text is cut
where the tokens were joined. A number as a token leads to the item with that index.

## Main results

* `Pointer.decode?_encode`: the text of a pointer is read back
* `Pointer.index?_toString`, `Pointer.eq_toString_of_index?`: the token of an index
* `Json.modifyAt?_item`: a change by a pointer that begins with an index
-/

namespace WorkloadImages

namespace Pointer

/-! ## Text -/

theorem escape_cons (c : Char) (token : List Char) :
    escape (c :: token) = escapeChar c ++ escape token := by
  unfold escape
  rw [List.flatMap_cons]

theorem slash_not_mem_escape (token : List Char) : '/' ∉ escape token := by
  unfold escape
  intro hmem
  obtain ⟨c, -, hc⟩ := List.mem_flatMap.1 hmem
  unfold escapeChar at hc
  split at hc
  · simp at hc
  · split at hc
    · simp at hc
    · next hne =>
      obtain rfl := List.mem_singleton.1 hc
      exact hne rfl

theorem unescape?_escape (token : List Char) : unescape? (escape token) = some token := by
  induction token with
  | nil => rfl
  | cons c token ih =>
    rw [escape_cons, escapeChar]
    -- a tilde, a slash, or a character that is written as it is
    split
    · next h => simp [unescape?, ih, h]
    · next htilde =>
      split
      · next h => simp [unescape?, ih, h]
      · simp [unescape?, ih, htilde]

theorem encodeChars_cons (token : String) (pointer : Pointer) :
    encodeChars (token :: pointer) = '/' :: (escape token.toList ++ encodeChars pointer) := by
  unfold encodeChars
  rw [List.flatMap_cons, List.cons_append]

/-- What follows the first slash of a pointer is cut into its escaped tokens. -/
theorem pieces_encodeChars (token : String) (pointer : Pointer) :
    Text.pieces '/' (escape token.toList ++ encodeChars pointer) =
      (token :: pointer).map fun t => escape t.toList := by
  have hslash := slash_not_mem_escape token.toList
  induction pointer generalizing token with
  | nil =>
    -- The last token has no slash behind it: it is one piece.
    have hnil : encodeChars [] = [] := rfl
    rw [hnil, List.append_nil, Text.pieces_of_not_mem hslash]
    rfl
  | cons next pointer ih =>
    rw [encodeChars_cons, Text.pieces_append hslash, ih next (slash_not_mem_escape next.toList)]
    rfl

theorem mapM_unescape? (pointer : Pointer) :
    (pointer.map fun t => escape t.toList).mapM
      (fun token => (unescape? token).map String.ofList) = some pointer := by
  induction pointer with
  | nil => rfl
  | cons token pointer ih =>
    rw [List.map_cons, List.mapM_cons, unescape?_escape, ih]
    simp

/-- **A pointer is read back from its text.** -/
theorem decode?_encode (pointer : Pointer) : decode? pointer.encode = some pointer := by
  unfold decode? encode
  rw [String.toList_ofList]
  cases pointer with
  | nil => rfl
  | cons token pointer =>
    rw [encodeChars_cons, decodeChars?, pieces_encodeChars, mapM_unescape?]

/-! ## Indices -/

theorem digitsValue_toDigits (n : Nat) : Text.digitsValue (Nat.toDigits 10 n) = n := by
  have hfold : Text.digitsValue (Nat.toDigits 10 n) =
      Nat.ofDigitChars 10 (Nat.toDigits 10 n) 0 := by
    unfold Text.digitsValue Nat.ofDigitChars
    refine congrArg (List.foldl · 0 _) ?_
    funext m c
    rw [Nat.mul_comm]
    rfl
  rw [hfold, Nat.ofDigitChars_ten_toDigits]

/-- The digits of a number other than zero begin with another digit than zero. -/
theorem toDigits_eq_cons {n : Nat} (h : n ≠ 0) :
    ∃ c cs, Nat.toDigits 10 n = c :: cs ∧ c ≠ '0' := by
  -- By the digits of the number: the leading one is that of the number without its last digit.
  induction n using Nat.base_induction 10 (by decide) with
  | single n hn =>
    refine ⟨n.digitChar, [], Nat.toDigits_of_lt_base hn, ?_⟩
    rwa [ne_eq, Nat.digitChar_eq_zero]
  | digit n d hd hn ih =>
    obtain ⟨c, cs, hdigits, hc⟩ := ih (Nat.ne_of_gt hn)
    refine ⟨c, cs ++ Nat.toDigits 10 d, ?_, hc⟩
    rw [← Nat.toDigits_append_toDigits (by decide) hn hd, hdigits, List.cons_append]

/-- **The token of an index names the item with that index.** -/
theorem index?_toString (index : Nat) : index? (toString index) = some index := by
  by_cases h : index = 0
  · subst h
    rfl
  · obtain ⟨c, cs, hdigits, hc⟩ := toDigits_eq_cons h
    have hall : (c :: cs).all Char.isDigit = true := by
      rw [← hdigits, List.all_eq_true]
      intro d hd
      exact Nat.isDigit_of_mem_toDigits (by decide) (by decide) hd
    have hvalue := digitsValue_toDigits index
    unfold index?
    rw [Nat.toString_eq_repr, Nat.toList_repr, hdigits]
    rw [hdigits] at hvalue
    -- Of the four forms of a token this one is the last: it neither is empty nor begins with zero.
    split
    · contradiction
    · next e => exact absurd (List.cons.inj e).1 hc
    · next e => exact absurd (List.cons.inj e).1 hc
    · rw [if_pos hall, hvalue]

/-- A digit is the one that its value is written with. -/
theorem toDigits_digitValue {c : Char} (h : c.isDigit = true) :
    Text.digitValue c < 10 ∧ Nat.toDigits 10 (Text.digitValue c) = [c] := by
  have hbounds : 48 ≤ c.toNat ∧ c.toNat ≤ 57 := Char.isDigit_iff_toNat.1 h
  have hvalue : Text.digitValue c = c.toNat - 48 := rfl
  have hlt : Text.digitValue c < 10 := by omega
  refine ⟨hlt, ?_⟩
  rw [Nat.toDigits_of_lt_base hlt]
  refine congrArg (· :: []) (Char.toNat_inj.1 ?_)
  rw [Nat.toNat_digitChar_of_lt_ten hlt]
  omega

/-- Digits behind those of a number continue it. -/
theorem toDigits_append {n : Nat} (hn : 0 < n) {digits : List Char}
    (h : ∀ c ∈ digits, c.isDigit = true) :
    Nat.toDigits 10 n ++ digits =
      Nat.toDigits 10 (digits.foldl (fun n c => n * 10 + Text.digitValue c) n) := by
  induction digits generalizing n with
  | nil => rw [List.append_nil, List.foldl_nil]
  | cons c digits ih =>
    obtain ⟨hlt, hdigit⟩ := toDigits_digitValue (h c List.mem_cons_self)
    have hpos : 0 < n * 10 + Text.digitValue c := by omega
    rw [List.foldl_cons, ← ih hpos fun d hd => h d (List.mem_cons_of_mem _ hd), Nat.mul_comm,
      ← Nat.toDigits_append_toDigits (by decide) hn hlt, hdigit, List.append_assoc,
      List.singleton_append]

/-- Digits without a leading zero are those of the number that they write. -/
theorem toDigits_digitsValue {c : Char} {digits : List Char} (hc : c ≠ '0')
    (h : ∀ d ∈ c :: digits, d.isDigit = true) :
    Nat.toDigits 10 (Text.digitsValue (c :: digits)) = c :: digits := by
  obtain ⟨-, hdigit⟩ := toDigits_digitValue (h c List.mem_cons_self)
  have hpos : 0 < Text.digitValue c := by
    refine Nat.pos_of_ne_zero fun hzero => hc ?_
    rw [hzero] at hdigit
    exact (List.cons.inj hdigit).1.symm
  rw [Text.digitsValue, List.foldl_cons, Nat.zero_mul, Nat.zero_add,
    ← toDigits_append hpos fun d hd => h d (List.mem_cons_of_mem _ hd), hdigit,
    List.singleton_append]

/-- An index has one token only. -/
theorem eq_toString_of_index? {token : String} {index : Nat} (h : index? token = some index) :
    token = toString index := by
  rw [← String.toList_inj, Nat.toString_eq_repr, Nat.toList_repr]
  unfold index? at h
  split at h
  · cases h
  · next e =>
    obtain rfl := Option.some.inj h
    exact e
  · cases h
  · next hnil hzero hlead =>
    split at h
    · next hall =>
      obtain rfl := Option.some.inj h
      cases hdigits : token.toList with
      | nil => exact absurd hdigits hnil
      | cons c digits =>
        rw [hdigits, List.all_eq_true] at hall
        have hc : c ≠ '0' := by
          rintro rfl
          exact hlead digits hdigits
        exact (toDigits_digitsValue hc hall).symm
    · cases h

theorem index?_injective {token token' : String} {index : Nat} (h : index? token = some index)
    (h' : index? token' = some index) : token = token' := by
  rw [eq_toString_of_index? h, eq_toString_of_index? h']

end Pointer

namespace Json

variable {change : Json → Option Json} {items : List Json} {index : Nat} {item changed : Json}
  {pointer : Pointer}

theorem modifyAt?_item (hitem : items[index]? = some item)
    (hchanged : modifyAt? change pointer item = some changed) :
    modifyAt? change (toString index :: pointer) (arr items) =
      some (arr (items.set index changed)) := by
  have hchild : (arr items).child? (toString index) = some item := by
    rw [child?, Pointer.index?_toString]
    exact hitem
  have hset : setChild (toString index) changed (arr items) = arr (items.set index changed) := by
    rw [setChild, Pointer.index?_toString]
  rw [modifyAt?, hchild]
  simp only [hchanged, Option.map_some, hset]

end Json

end WorkloadImages

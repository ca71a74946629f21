import WorkloadImages.Json.Literal
import WorkloadImages.Json.Printer

/-!
# Strings written and read back

A text between quotation marks is read back as it was: every character is written as one piece of a
string, which stands for it.

## Main definitions

* `Json.pieceOf`: the piece as which a character is written

## Main results

* `Json.readString_flatMap_escapeChar`: the pieces of a text that was written
* `Json.textOf?_map_pieceOf`: the pieces stand for the text
-/

namespace WorkloadImages.Json

/-- The piece as which a character is written: a code unit for a control character without a short
escape. -/
def pieceOf (c : Char) : Piece :=
  if c.toNat < 0x20 ∧ c ∉ ['\x08', '\t', '\n', '\x0c', '\r'] then .unit c.toNat else .char c

/-! ## Pieces -/

/-- A character that stands for itself in a string. -/
theorem readString_cons_of_plain {c : Char} (hquote : c ≠ '"') (hbackslash : c ≠ '\\')
    (hprintable : 0x20 ≤ c.toNat) (cs : List Char) :
    readString (c :: cs) = (readString cs).map fun (pieces, rest) => (.char c :: pieces, rest) := by
  rw [readString]
  · have hplain : ¬(c = '\\' ∨ c.toNat < 0x20) := by simp [hbackslash, Nat.not_lt.2 hprintable]
    rw [if_neg hplain]
    cases readString cs <;> rfl
  · exact hquote
  · rintro a b d e rest rfl
    exact absurd rfl hbackslash
  · rintro e rest rfl
    exact absurd rfl hbackslash

/-- A character behind a backslash. -/
theorem readString_backslash {e c : Char} (he : shortEscape? e = some c) (cs : List Char) :
    readString ('\\' :: e :: cs) =
      (readString cs).map fun (pieces, rest) => (.char c :: pieces, rest) := by
  rw [readString]
  · rw [he]
    cases readString cs <;> rfl
  · rintro a b d f rest rfl
    cases he

/-- Two zeros and two digits give every code unit below a blank. -/
theorem hexDigitsValue?_hexDigit : ∀ n < 0x20,
    Text.hexDigitsValue? ['0', '0', hexDigit (n / 16), hexDigit (n % 16)] = some n := by
  decide

theorem readString_unit {n : Nat} (hn : n < 0x20) (cs : List Char) :
    readString ('\\' :: 'u' :: '0' :: '0' :: hexDigit (n / 16) :: hexDigit (n % 16) :: cs) =
      (readString cs).map fun (pieces, rest) => (.unit n :: pieces, rest) := by
  rw [readString, hexDigitsValue?_hexDigit n hn]
  cases readString cs <;> rfl

/-- A character that was written is read as its piece. -/
theorem readString_escapeChar (c : Char) (cs : List Char) :
    readString (escapeChar c ++ cs) =
      (readString cs).map fun (pieces, rest) => (pieceOf c :: pieces, rest) := by
  by_cases hshort : c ∈ ['"', '\\', '\x08', '\t', '\n', '\x0c', '\r']
  · -- Each of these characters has an escape of its own.
    simp only [List.mem_cons, List.not_mem_nil, or_false] at hshort
    rcases hshort with rfl | rfl | rfl | rfl | rfl | rfl | rfl <;>
      exact readString_backslash rfl cs
  · simp only [List.mem_cons, List.not_mem_nil, or_false, not_or] at hshort
    obtain ⟨h₁, h₂, h₃, h₄, h₅, h₆, h₇⟩ := hshort
    simp only [escapeChar, if_neg h₁, if_neg h₂, if_neg h₃, if_neg h₄, if_neg h₅, if_neg h₆,
      if_neg h₇]
    have hlist : c ∉ ['\x08', '\t', '\n', '\x0c', '\r'] := by simp [h₃, h₄, h₅, h₆, h₇]
    split
    · next hcontrol =>
      rw [pieceOf, if_pos ⟨hcontrol, hlist⟩]
      exact readString_unit hcontrol cs
    · next hprintable =>
      rw [pieceOf, if_neg fun h => hprintable h.1]
      exact readString_cons_of_plain h₁ h₂ (Nat.not_lt.1 hprintable) cs

/-- **A text between quotation marks** is read as the pieces of its characters. -/
theorem readString_flatMap_escapeChar (text rest : List Char) :
    readString (text.flatMap escapeChar ++ '"' :: rest) = some (text.map pieceOf, rest) := by
  induction text with
  | nil => rfl
  | cons c text ih =>
    rw [List.flatMap_cons, List.append_assoc, readString_escapeChar, ih]
    rfl

/-! ## What pieces stand for -/

theorem decodePieces_unit {n : Nat} (hn : n < 0x20) (pieces : List Piece) :
    decodePieces (.unit n :: pieces) = (decodePieces pieces).map (Char.ofNat n :: ·) := by
  have hhigh : isHighSurrogate n = false := by
    simp only [isHighSurrogate, Bool.and_eq_false_iff, decide_eq_false_iff_not]
    omega
  have hlow : isLowSurrogate n = false := by
    simp only [isLowSurrogate, Bool.and_eq_false_iff, decide_eq_false_iff_not]
    omega
  rcases pieces with - | ⟨c | m, pieces⟩ <;> simp [decodePieces, hhigh, hlow]

theorem decodePieces_pieceOf (c : Char) (pieces : List Piece) :
    decodePieces (pieceOf c :: pieces) = (decodePieces pieces).map (c :: ·) := by
  unfold pieceOf
  split
  · next h => rw [decodePieces_unit h.1, Char.ofNat_toNat]
  · rw [decodePieces]

/-- **The pieces of a text** stand for the text. -/
theorem textOf?_map_pieceOf (text : String) : textOf? (text.toList.map pieceOf) = some text := by
  have hdecode : ∀ cs : List Char, decodePieces (cs.map pieceOf) = some cs := by
    intro cs
    induction cs with
    | nil => rfl
    | cons c cs ih => rw [List.map_cons, decodePieces_pieceOf, ih, Option.map_some]
  rw [textOf?, hdecode, Option.map_some, String.ofList_toList]

end WorkloadImages.Json

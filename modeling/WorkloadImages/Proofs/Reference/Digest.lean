import WorkloadImages.Proofs.Reference.Parse
import WorkloadImages.Proofs.Reference.Recognition

/-!
# Recognising digests

A digest is read twice: as one by any algorithm, and then as one by a known algorithm. The second
reading accepts a part of what the first one does.

## Main results

* `isDigestText_iff`: the digests by any algorithm
* `checkDigest_eq_ok_iff`: the digests by a known algorithm
* `Language.KnownDigest.digest`: the second are among the first
-/

namespace WorkloadImages.Reference

open WorkloadImages.Reference.Language

variable {cs algorithm word rest : List Char} {fresh : Bool}

/-! ## Algorithms -/

/-- What may have been read of a word, of which nothing has been when a word has to begin. -/
def BeginsWord : Bool → List Char → Prop
  | true, word => word = []
  | false, word => Word word

theorem Language.Word.concat {c : Char} (h : Word word) (hc : Alnum c) : Word (word ++ [c]) := by
  obtain ⟨hfirst, hrest⟩ := h
  refine .mk hfirst fun d hd => ?_
  rcases List.mem_append.1 hd with hd | hd
  · exact hrest d hd
  · rw [List.mem_singleton.1 hd]
    exact hc

theorem BeginsWord.letter {c : Char} (h : BeginsWord fresh word) (hc : Letter c) :
    Word (word ++ [c]) := by
  cases fresh with
  | true =>
    obtain rfl : word = [] := h
    exact .mk hc (by simp)
  | false => exact Word.concat h (Or.inl hc)

/-- What continues the name of an algorithm completes one behind the word that has been read. -/
theorem algorithm_of_continuesAlgorithm (h : continuesAlgorithm fresh cs = true)
    (hword : BeginsWord fresh word) : Algorithm (word ++ cs) := by
  induction cs generalizing fresh word with
  | nil =>
    cases fresh with
    | true => cases h
    | false =>
      rw [List.append_nil]
      exact .one hword
  | cons c cs ih =>
    unfold continuesAlgorithm at h
    split at h
    · next hc =>
      have hlonger := ih h (hword.letter (isAlpha_iff.1 hc))
      simpa using hlonger
    · cases fresh with
      | true => cases h
      | false =>
        rw [if_neg Bool.false_ne_true] at h
        split at h
        · next hc =>
          have hbegun : BeginsWord false (word ++ [c]) :=
            Word.concat hword (Or.inr (isDigit_iff_digit.1 hc))
          have hlonger := ih h hbegun
          simpa using hlonger
        · -- A mark ends the word, and the next one begins behind it.
          obtain ⟨hc, h⟩ := Bool.and_eq_true_iff.1 h
          have hrest : Algorithm ([] ++ cs) := ih h rfl
          have hmark : [c] ∈ [['-'], ['_'], ['+'], ['.']] := by simpa [or_assoc] using hc
          have hmore : Algorithm (word ++ [c] ++ cs) := .cons hword hmark hrest
          simpa using hmore

theorem continuesAlgorithm_alnum (h : ∀ c ∈ word, Alnum c) (rest : List Char) :
    continuesAlgorithm false (word ++ rest) = continuesAlgorithm false rest := by
  induction word with
  | nil => rfl
  | cons c word ih =>
    have hrest := ih fun d hd => h d (List.mem_cons_of_mem c hd)
    rw [List.cons_append, continuesAlgorithm, hrest]
    rcases h c List.mem_cons_self with hc | hc
    · rw [if_pos (isAlpha_iff.2 hc)]
    · rw [if_neg Bool.false_ne_true, if_pos (isDigit_iff_digit.2 hc), ite_self]

theorem continuesAlgorithm_word (h : Word word) (rest : List Char) :
    continuesAlgorithm true (word ++ rest) = continuesAlgorithm false rest := by
  obtain ⟨hfirst, hrest⟩ := h
  rw [List.cons_append, continuesAlgorithm, if_pos (isAlpha_iff.2 hfirst)]
  exact continuesAlgorithm_alnum hrest rest

/-- **The names of algorithms** are words with single marks between them. -/
theorem continuesAlgorithm_iff : continuesAlgorithm true cs = true ↔ Algorithm cs := by
  constructor
  · intro h
    have hread : Algorithm ([] ++ cs) := algorithm_of_continuesAlgorithm h rfl
    exact hread
  · intro h
    induction h with
    | one hword =>
      have hread := continuesAlgorithm_word hword []
      rw [List.append_nil] at hread
      exact hread
    | cons hword hmark _ ih =>
      rw [List.append_assoc, continuesAlgorithm_word hword]
      simp only [List.mem_cons, List.not_mem_nil, or_false] at hmark
      rcases hmark with rfl | rfl | rfl | rfl <;> exact ih

theorem colon_not_mem_of_continuesAlgorithm (h : continuesAlgorithm fresh cs = true) :
    ':' ∉ cs := by
  induction cs generalizing fresh with
  | nil => exact List.not_mem_nil
  | cons c cs ih =>
    intro hmem
    rcases List.mem_cons.1 hmem with rfl | hmem
    · cases fresh <;> cases h
    · unfold continuesAlgorithm at h
      split at h
      · exact ih h hmem
      · split at h
        · cases h
        · split at h
          · exact ih h hmem
          · exact ih (Bool.and_eq_true_iff.1 h).2 hmem

/-! ## Digests -/

/-- **A text is recognised as a digest exactly if it is derived as one.** -/
theorem isDigestText_iff : isDigestText cs = true ↔ Digest cs := by
  constructor
  · intro h
    unfold isDigestText at h
    split at h
    · next algorithm hex hcut =>
      obtain ⟨-, rfl⟩ := Text.cut?_eq_some_iff.1 hcut
      rw [Bool.and_eq_true, Bool.and_eq_true, all_iff fun _ => isHexDigit_iff,
        decide_eq_true_eq] at h
      obtain ⟨⟨halgorithm, hlength⟩, hhex⟩ := h
      exact .mk (continuesAlgorithm_iff.1 halgorithm) hlength hhex
    · cases h
  · intro h
    cases h with
    | mk halgorithm hlength hhex =>
      have halgorithm := continuesAlgorithm_iff.2 halgorithm
      rw [isDigestText, Text.cut?_append (colon_not_mem_of_continuesAlgorithm halgorithm)]
      dsimp only
      rw [Bool.and_eq_true, Bool.and_eq_true, all_iff fun _ => isHexDigit_iff, decide_eq_true_eq]
      exact ⟨⟨halgorithm, hlength⟩, hhex⟩

/-- A digest is accepted if its algorithm is known and gives it so many digits in lowercase. -/
theorem checkDigest_eq_ok_iff_exists :
    checkDigest cs = .ok () ↔ ∃ algorithm hex, Text.cut? ':' cs = some (algorithm, hex) ∧
      digestLength? (String.ofList algorithm) = some hex.length ∧ ∀ c ∈ hex, LowerHex c := by
  have hclass : ∀ hex : List Char, hex.all isLowerHexDigit = true ↔ ∀ c ∈ hex, LowerHex c :=
    fun hex => all_iff fun _ => isLowerHexDigit_iff
  constructor
  · intro h
    unfold checkDigest at h
    split at h
    · cases h
    · next algorithm hex hcut =>
      split at h
      · cases h
      · next expected hexpected =>
        split at h
        · cases h
        · next hlength =>
          obtain rfl : hex.length = expected := Decidable.of_not_not hlength
          split at h
          · next hhex => exact ⟨algorithm, hex, hcut, hexpected, (hclass hex).1 hhex⟩
          · cases h
  · rintro ⟨algorithm, hex, hcut, hlength, hhex⟩
    rw [checkDigest, hcut]
    dsimp only
    rw [hlength]
    dsimp only
    rw [if_neg (fun hne => hne rfl), if_pos ((hclass hex).2 hhex)]

theorem digestLength?_eq_some_iff {name : String} {length : Nat} :
    digestLength? name = some length ↔
      (name = "sha256" ∧ length = 64) ∨ (name = "sha384" ∧ length = 96) ∨
        (name = "sha512" ∧ length = 128) := by
  unfold digestLength?
  split
  · next h => subst h; simp [eq_comm]
  · split
    · next h => subst h; simp [eq_comm]
    · split
      · next h => subst h; simp [eq_comm]
      · next h256 h384 h512 => simp [h256, h384, h512]

/-- **A digest is accepted exactly if it is derived as one by a known algorithm.** -/
theorem checkDigest_eq_ok_iff : checkDigest cs = .ok () ↔ KnownDigest cs := by
  rw [checkDigest_eq_ok_iff_exists]
  constructor
  · rintro ⟨algorithm, hex, hcut, hlength, hhex⟩
    obtain ⟨-, rfl⟩ := Text.cut?_eq_some_iff.1 hcut
    obtain ⟨name, rfl⟩ : ∃ name : String, algorithm = name.toList :=
      ⟨String.ofList algorithm, String.toList_ofList.symm⟩
    rw [String.ofList_toList, digestLength?_eq_some_iff] at hlength
    rcases hlength with ⟨rfl, hlength⟩ | ⟨rfl, hlength⟩ | ⟨rfl, hlength⟩
    · exact .sha256 hlength hhex
    · exact .sha384 hlength hhex
    · exact .sha512 hlength hhex
  · intro h
    cases h with
    | sha256 hlength hhex =>
      exact ⟨"sha256".toList, _, rfl, digestLength?_eq_some_iff.2 (by simp [hlength]), hhex⟩
    | sha384 hlength hhex =>
      exact ⟨"sha384".toList, _, rfl, digestLength?_eq_some_iff.2 (by simp [hlength]), hhex⟩
    | sha512 hlength hhex =>
      exact ⟨"sha512".toList, _, rfl, digestLength?_eq_some_iff.2 (by simp [hlength]), hhex⟩

theorem digest_of_lowerHex {hex : List Char} (halgorithm : continuesAlgorithm true algorithm = true)
    (hlength : 32 ≤ hex.length) (hhex : ∀ c ∈ hex, LowerHex c) :
    Digest (algorithm ++ ':' :: hex) :=
  .mk (continuesAlgorithm_iff.1 halgorithm) hlength fun c hc => Or.inl (hhex c hc)

/-- A digest by a known algorithm is one by any algorithm. -/
theorem Language.KnownDigest.digest (h : KnownDigest cs) : Digest cs := by
  cases h with
  | @sha256 hex hlength hhex =>
    have halgorithm : continuesAlgorithm true "sha256".toList = true := by decide
    have hlong : 32 ≤ hex.length := by omega
    exact digest_of_lowerHex halgorithm hlong hhex
  | @sha384 hex hlength hhex =>
    have halgorithm : continuesAlgorithm true "sha384".toList = true := by decide
    have hlong : 32 ≤ hex.length := by omega
    exact digest_of_lowerHex halgorithm hlong hhex
  | @sha512 hex hlength hhex =>
    have halgorithm : continuesAlgorithm true "sha512".toList = true := by decide
    have hlong : 32 ≤ hex.length := by omega
    exact digest_of_lowerHex halgorithm hlong hhex

end WorkloadImages.Reference

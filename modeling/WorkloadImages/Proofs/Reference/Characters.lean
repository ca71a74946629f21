import WorkloadImages.Proofs.Text.Cut
import WorkloadImages.Reference.Grammar

/-!
# The characters of the parts of a reference

Every part of a reference is in a class of characters. Which marks a class leaves out is what tells
the parts apart when they stand behind each other.

## Main definitions

* `isComponentChar`, `isDomainChar`, `isTagChar`, `isDigestChar`: the characters of each part

## Main results

* `isComponent_all`, `isDomain_all`, `isTag_all`, `isDigestText_all`: a part is in its class
-/

namespace WorkloadImages.Reference

/-! ## Letters and digits -/

theorem isUpper_iff {c : Char} : c.isUpper = true ↔ 65 ≤ c.toNat ∧ c.toNat ≤ 90 := by
  change decide ('A'.val ≤ c.val ∧ c.val ≤ 'Z'.val) = true ↔ _
  rw [decide_eq_true_eq]
  exact Iff.rfl

theorem isLower_iff {c : Char} : c.isLower = true ↔ 97 ≤ c.toNat ∧ c.toNat ≤ 122 := by
  change (decide ('a'.val ≤ c.val) && decide (c.val ≤ 'z'.val)) = true ↔ _
  rw [Bool.and_eq_true, decide_eq_true_eq, decide_eq_true_eq]
  exact Iff.rfl

theorem isDigit_iff {c : Char} : c.isDigit = true ↔ 48 ≤ c.toNat ∧ c.toNat ≤ 57 :=
  Char.isDigit_iff_toNat

theorem isAlphanum_iff {c : Char} :
    c.isAlphanum = true ↔ (c.isUpper = true ∨ c.isLower = true) ∨ c.isDigit = true := by
  change ((c.isUpper || c.isLower) || c.isDigit) = true ↔ _
  rw [Bool.or_eq_true, Bool.or_eq_true]

theorem ascii_of_isAlphanum {c : Char} (h : c.isAlphanum = true) : c.toNat < 0x80 := by
  rw [isAlphanum_iff, isUpper_iff, isLower_iff, isDigit_iff] at h
  omega

/-! ## The characters of each part -/

/-- Whether a character may stand in a path component. -/
def isComponentChar (c : Char) : Bool := isLowerAlnum c || c = '.' || c = '_' || c = '-'

/-- Whether a character may stand in a domain. -/
def isDomainChar (c : Char) : Bool := c.isAlphanum || c = '-' || c = '.' || c = ':'

/-- Whether a character may stand in a tag. -/
def isTagChar (c : Char) : Bool := c.isAlphanum || c = '_' || c = '.' || c = '-'

/-- Whether a character may stand in a digest. -/
def isDigestChar (c : Char) : Bool :=
  c.isAlphanum || c = '-' || c = '_' || c = '+' || c = '.' || c = ':'

theorem Gap.isComponentChar_of_push? {gap gap' : Gap} {c : Char} (h : gap.push? c = some gap') :
    isComponentChar c = true := by
  unfold Gap.push? at h
  split at h <;> first | rfl | exact absurd h (by simp)

theorem continuesComponent_all {gap : Gap} {cs : List Char}
    (h : continuesComponent gap cs = true) : cs.all isComponentChar = true := by
  induction cs generalizing gap with
  | nil => rfl
  | cons c cs ih =>
    rw [List.all_cons, Bool.and_eq_true]
    unfold continuesComponent at h
    split at h
    · next hc => exact ⟨by simp [isComponentChar, hc], ih h⟩
    · split at h
      · next gap' hgap => exact ⟨Gap.isComponentChar_of_push? hgap, ih h⟩
      · exact Bool.noConfusion h

theorem isComponent_all {cs : List Char} (h : isComponent cs = true) :
    cs.all isComponentChar = true := by
  cases cs with
  | nil => rfl
  | cons c cs =>
    obtain ⟨hc, hcs⟩ := Bool.and_eq_true_iff.1 h
    rw [List.all_cons, Bool.and_eq_true]
    exact ⟨by simp [isComponentChar, hc], continuesComponent_all hcs⟩

theorem isHostLabel_all {cs : List Char} (h : isHostLabel cs = true) :
    cs.all isDomainChar = true := by
  simp only [isHostLabel, Bool.and_eq_true] at h
  refine List.all_eq_true.2 fun c hc => ?_
  have := List.all_eq_true.1 h.1.1.2 c hc
  simp only [isDomainChar, Bool.or_eq_true] at this ⊢
  exact Or.inl (Or.inl this)

theorem isPort_all {cs : List Char} (h : isPort cs = true) : cs.all isDomainChar = true := by
  simp only [isPort, Bool.and_eq_true] at h
  refine List.all_eq_true.2 fun c hc => ?_
  have := List.all_eq_true.1 h.2 c hc
  simp [isDomainChar, isAlphanum_iff.2 (Or.inr this)]

theorem isHost_all {cs : List Char} (h : isHost cs = true) : cs.all isDomainChar = true := by
  refine List.all_eq_true.2 fun c hc => ?_
  rw [← Text.joined_pieces '.' cs] at hc
  rcases Text.mem_joined hc with rfl | ⟨label, hlabel, hc⟩
  · rfl
  · exact List.all_eq_true.1 (isHostLabel_all (List.all_eq_true.1 h label hlabel)) c hc

theorem isDomain_all {cs : List Char} (h : isDomain cs = true) : cs.all isDomainChar = true := by
  unfold isDomain at h
  split at h
  · next host port hcut =>
    obtain ⟨-, rfl⟩ := Text.cut?_eq_some_iff.1 hcut
    obtain ⟨hhost, hport⟩ := Bool.and_eq_true_iff.1 h
    rw [List.all_append, List.all_cons, isHost_all hhost, isPort_all hport]
    rfl
  · exact isHost_all h

theorem isTag_all {cs : List Char} (h : isTag cs = true) : cs.all isTagChar = true := by
  cases cs with
  | nil => rfl
  | cons c cs =>
    simp only [isTag, Bool.and_eq_true, Bool.or_eq_true] at h
    obtain ⟨⟨hc, -⟩, hcs⟩ := h
    rw [List.all_cons, Bool.and_eq_true]
    refine ⟨?_, hcs⟩
    simp only [isTagChar, Bool.or_eq_true]
    exact Or.inl (Or.inl hc)

theorem continuesAlgorithm_all {fresh : Bool} {cs : List Char}
    (h : continuesAlgorithm fresh cs = true) : cs.all isDigestChar = true := by
  induction cs generalizing fresh with
  | nil => rfl
  | cons c cs ih =>
    rw [List.all_cons, Bool.and_eq_true]
    unfold continuesAlgorithm at h
    split at h
    · next hc =>
      exact ⟨by simp [isDigestChar, isAlphanum_iff.2 (Or.inl (Bool.or_eq_true_iff.1 hc))], ih h⟩
    · split at h
      · exact Bool.noConfusion h
      · split at h
        · next hc => exact ⟨by simp [isDigestChar, isAlphanum_iff.2 (Or.inr hc)], ih h⟩
        · obtain ⟨hc, hcs⟩ := Bool.and_eq_true_iff.1 h
          simp only [Bool.or_eq_true, decide_eq_true_eq] at hc
          refine ⟨?_, ih hcs⟩
          rcases hc with ((rfl | rfl) | rfl) | rfl <;> rfl

theorem isHexDigit_iff_toNat {c : Char} :
    isHexDigit c = true ↔ (c.isDigit = true ∨ (97 ≤ c.toNat ∧ c.toNat ≤ 102)) ∨
      (65 ≤ c.toNat ∧ c.toNat ≤ 70) := by
  simp only [isHexDigit, Bool.or_eq_true, Bool.and_eq_true, decide_eq_true_eq, Char.le_def,
    UInt32.le_iff_toNat_le]
  exact Iff.rfl

theorem isHexDigit_alphanum {c : Char} (h : isHexDigit c = true) : c.isAlphanum = true := by
  rw [isAlphanum_iff, isUpper_iff, isLower_iff]
  rcases isHexDigit_iff_toNat.1 h with (h | h) | h
  · exact Or.inr h
  · exact Or.inl (Or.inr ⟨h.1, by omega⟩)
  · exact Or.inl (Or.inl ⟨h.1, by omega⟩)

theorem isDigestText_all {cs : List Char} (h : isDigestText cs = true) :
    cs.all isDigestChar = true := by
  unfold isDigestText at h
  split at h
  · next algorithm hex hcut =>
    obtain ⟨-, rfl⟩ := Text.cut?_eq_some_iff.1 hcut
    simp only [Bool.and_eq_true] at h
    rw [List.all_append, List.all_cons, continuesAlgorithm_all h.1.1]
    refine List.all_eq_true.2 fun c hc => ?_
    have := isHexDigit_alphanum (List.all_eq_true.1 h.2 c hc)
    simp [isDigestChar, this]
  · exact Bool.noConfusion h

end WorkloadImages.Reference

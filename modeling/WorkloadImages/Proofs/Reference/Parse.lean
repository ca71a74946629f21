import WorkloadImages.Proofs.Reference.Parts
import WorkloadImages.Reference.Basic
import WorkloadImages.Text.Bytes

/-!
# Reading references

When a text is read as a reference: its parts have their forms and keep to the limits on names and
digests. A name is in ASCII, so that the limit on its characters is one on its bytes. That the name
is split in its turn refuses nothing more.

## Main definitions

* `ReferenceError.OfLimits`: the causes that lie in the limits
* `Parts.WithinLimits`: the name is not too long, and the digest is of a known algorithm
* `Parts.toReference`: the reference of parts

## Main results

* `ofParts_ne_invalidFormat`: the name of parts is split without fail
* `parse_eq_ok_iff`: what is read as a reference, and as which one
* `Parts.WellFormed.byteLength_name`: the length of a name in bytes
-/

namespace WorkloadImages

/-- A cause that lies in the limits on names and digests, and not in the form of the text. -/
def ReferenceError.OfLimits : ReferenceError → Prop
  | .empty | .invalidFormat _ | .containsUppercase _ => False
  | .nameTooLong _ | .unsupportedDigest _ | .invalidDigestLength .. | .invalidDigestFormat _ => True

namespace Reference

/-! ## Limits -/

namespace Parts

/-- The limits on the name and the digest. -/
structure WithinLimits (parts : Parts) : Prop where
  name : parts.name.length ≤ ReferenceError.maxNameLength
  digest : ∀ cs ∈ parts.digest, checkDigest cs = .ok ()

/-- The reference that has the parts. -/
def toReference (parts : Parts) : Reference where
  domain := String.ofList parts.domain
  path := String.ofList parts.path
  tag := parts.tag.map String.ofList
  digest := parts.digest.map String.ofList

end Parts

variable {parts : Parts} {reference : Reference} {text : String} {cause : ReferenceError}

/-- The name of parts that have their forms is split, so that only the limits are left to check. -/
theorem ofParts_eq (h : parts.WellFormed) (text : String) :
    ofParts text parts =
      if parts.name.length > ReferenceError.maxNameLength then
        .error (.nameTooLong parts.name.length)
      else match parts.digest with
        | none => .ok parts.toReference
        | some digest => (checkDigest digest).map fun _ => parts.toReference := by
  unfold ofParts Parts.toReference
  rw [h.splitName?_eq]
  by_cases hname : parts.name.length > ReferenceError.maxNameLength
  · rw [if_pos hname, if_pos hname]
    rfl
  · rw [if_neg hname, if_neg hname]
    cases parts.digest with
    | none => rfl
    | some digest => cases hcheck : checkDigest digest <;> simp [hcheck] <;> rfl

theorem ofParts_eq_ok_iff (h : parts.WellFormed) :
    ofParts text parts = .ok reference ↔
      parts.WithinLimits ∧ reference = parts.toReference := by
  rw [ofParts_eq h]
  by_cases hname : parts.name.length > ReferenceError.maxNameLength
  · rw [if_pos hname]
    exact ⟨(nomatch ·), fun h => absurd h.1.name (Nat.not_le.2 hname)⟩
  · rw [if_neg hname]
    have hname := Nat.not_lt.1 hname
    cases hdigest : parts.digest with
    | none =>
      refine ⟨fun h => ⟨⟨hname, by simp [hdigest]⟩, (Except.ok.inj h).symm⟩, fun h => ?_⟩
      rw [h.2]
    | some digest =>
      have hlimits : parts.WithinLimits ↔ checkDigest digest = .ok () := by
        refine ⟨fun h => h.digest digest hdigest, fun h => ⟨hname, fun cs hcs => ?_⟩⟩
        obtain rfl : digest = cs := Option.some.inj (hdigest.symm.trans hcs)
        exact h
      rw [hlimits]
      dsimp only
      cases checkDigest digest with
      | error cause => exact ⟨(nomatch ·), fun h => nomatch h.1⟩
      | ok _ => exact ⟨fun h => ⟨rfl, (Except.ok.inj h).symm⟩, fun h => congrArg _ h.2.symm⟩

/-! ## Refusals -/

theorem ofLimits_of_checkDigest {digest : List Char} (h : checkDigest digest = .error cause) :
    cause.OfLimits := by
  unfold checkDigest at h
  split at h
  · cases h
    exact trivial
  · split at h
    · cases h
      exact trivial
    · split at h
      · cases h
        exact trivial
      · split at h
        · cases h
        · cases h
          exact trivial

/-- The parts of a text are refused for nothing but the limits. -/
theorem ofLimits_of_ofParts {cs : List Char} (h : Parts.ofText? cs = some parts)
    (herror : ofParts text parts = .error cause) : cause.OfLimits := by
  rw [ofParts_eq (Parts.wellFormed_of_ofText? h).1] at herror
  split at herror
  · cases herror
    exact trivial
  · split at herror
    · cases herror
    · next digest _ =>
      cases hcheck : checkDigest digest with
      | ok _ =>
        rw [hcheck] at herror
        cases herror
      | error cause =>
        rw [hcheck] at herror
        obtain rfl := Except.error.inj herror
        exact ofLimits_of_checkDigest hcheck

/-- **The second split never fails**: the name of a text in the language is split into a domain and
a path, and is not refused for its form. -/
theorem ofParts_ne_invalidFormat {cs : List Char} (h : Parts.ofText? cs = some parts)
    (text other : String) : ofParts text parts ≠ .error (.invalidFormat other) :=
  fun herror => ofLimits_of_ofParts h herror

/-! ## Acceptance -/

/-- **A text is read as a reference exactly if it is the text of parts that have their forms and
keep to the limits.** -/
theorem parse_eq_ok_iff :
    parse text = .ok reference ↔
      ∃ parts : Parts, parts.WellFormed ∧ parts.WithinLimits ∧ parts.text = text.toList ∧
        reference = parts.toReference := by
  unfold parse
  constructor
  · intro h
    -- The empty text and a text that cannot be split give errors only.
    split at h
    · exact nomatch h
    · split at h
      · next parts hparts =>
        obtain ⟨hforms, htext⟩ := Parts.ofText?_eq_some_iff.1 hparts
        obtain ⟨hlimits, hreference⟩ := (ofParts_eq_ok_iff hforms).1 h
        exact ⟨parts, hforms, hlimits, htext, hreference⟩
      · split at h <;> exact nomatch h
  · rintro ⟨parts, hforms, hlimits, htext, hreference⟩
    have hne : ¬ text.isEmpty = true := by
      intro hempty
      rw [String.isEmpty_iff.1 hempty] at htext
      exact hforms.text_ne_nil htext
    rw [if_neg hne, Parts.ofText?_eq_some_iff.2 ⟨hforms, htext⟩]
    exact (ofParts_eq_ok_iff hforms).2 ⟨hlimits, hreference⟩

/-! ## Bytes -/

theorem utf8Size_of_isAlphanum {c : Char} (h : c.isAlphanum = true) : c.utf8Size = 1 := by
  have hascii := ascii_of_isAlphanum h
  have hle : c.val ≤ 127 := by
    rw [UInt32.le_iff_toNat_le]
    change c.toNat ≤ 127
    omega
  simp [Char.utf8Size, hle]

theorem utf8Size_of_isComponentChar {c : Char} (h : isComponentChar c = true) :
    c.utf8Size = 1 := by
  simp only [isComponentChar, isLowerAlnum, Bool.or_eq_true, decide_eq_true_eq] at h
  rcases h with (((h | h) | rfl) | rfl) | rfl
  · exact utf8Size_of_isAlphanum (isAlphanum_iff.2 (Or.inl (Or.inr h)))
  · exact utf8Size_of_isAlphanum (isAlphanum_iff.2 (Or.inr h))
  all_goals rfl

theorem utf8Size_of_isDomainChar {c : Char} (h : isDomainChar c = true) : c.utf8Size = 1 := by
  simp only [isDomainChar, Bool.or_eq_true, decide_eq_true_eq] at h
  rcases h with ((h | rfl) | rfl) | rfl
  · exact utf8Size_of_isAlphanum h
  all_goals rfl

theorem byteLength_eq_length {cs : List Char} (h : ∀ c ∈ cs, c.utf8Size = 1) :
    Text.byteLength cs = cs.length := by
  -- The bytes are counted up from any number, for the induction to go through.
  have hfold (n : Nat) : cs.foldl (fun n c => n + c.utf8Size) n = n + cs.length := by
    induction cs generalizing n with
    | nil => rfl
    | cons c cs ih =>
      rw [List.foldl_cons, ih (fun c hc => h c (List.mem_cons_of_mem _ hc)),
        h c List.mem_cons_self, List.length_cons]
      omega
  rw [Text.byteLength, hfold, Nat.zero_add]

/-- A name has as many bytes as characters. -/
theorem Parts.WellFormed.byteLength_name (h : parts.WellFormed) :
    Text.byteLength parts.name = parts.name.length := by
  refine byteLength_eq_length fun c hc => ?_
  rcases mem_of_splitName? h.splitName?_eq hc with h | h | rfl
  · exact utf8Size_of_isDomainChar h
  · exact utf8Size_of_isComponentChar h
  · rfl

end Reference

end WorkloadImages

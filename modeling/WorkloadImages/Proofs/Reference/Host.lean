import WorkloadImages.Proofs.Reference.Characters

/-!
# Path components as hosts

Path components and hosts overlap: a period or hyphens may stand in both. A component is a host
unless it holds an underscore, which no host does.

## Main definitions

* `EndsLabel`: what may follow in a host label once it has begun

## Main results

* `exists_labels_of_continuesComponent`: the labels of the rest of a component
* `isDomain_iff_of_isComponent`: the components that are domains
-/

namespace WorkloadImages.Reference

open Text (pieces not_mem_of_all)

/-- What may follow in a host label once it has begun: it does not end in a hyphen. -/
def EndsLabel (cs : List Char) : Prop :=
  cs.all (fun c => c.isAlphanum || c = '-') = true ∧ cs.getLast? ≠ some '-'

variable {cs label : List Char} {c : Char}

theorem isHostLabel_iff : isHostLabel cs = true ↔ cs ≠ [] ∧ cs.head? ≠ some '-' ∧ EndsLabel cs := by
  simp only [isHostLabel, EndsLabel, Bool.and_eq_true, decide_eq_true_eq, Bool.not_eq_true',
    List.isEmpty_eq_false_iff]
  constructor
  · rintro ⟨⟨⟨hne, hall⟩, hhead⟩, hlast⟩
    exact ⟨hne, hhead, hall, hlast⟩
  · rintro ⟨hne, hhead, hall, hlast⟩
    exact ⟨⟨⟨hne, hall⟩, hhead⟩, hlast⟩

theorem EndsLabel.nil : EndsLabel [] := ⟨rfl, by simp⟩

theorem EndsLabel.hyphen (h : EndsLabel label) (hne : label ≠ []) : EndsLabel ('-' :: label) := by
  refine ⟨by simp [h.1], ?_⟩
  rw [List.getLast?_cons_of_ne_nil hne]
  exact h.2

theorem EndsLabel.cons (h : EndsLabel label) (hc : isLowerAlnum c = true) :
    EndsLabel (c :: label) := by
  have hhyphen : c ≠ '-' := by
    rintro rfl
    exact absurd hc (by decide)
  have halnum : c.isAlphanum = true := by
    rw [isAlphanum_iff]
    rcases Bool.or_eq_true_iff.1 hc with hc | hc
    · exact Or.inl (Or.inr hc)
    · exact Or.inr hc
  refine ⟨by rw [List.all_cons, h.1, halnum]; rfl, ?_⟩
  cases label with
  | nil => simpa using hhyphen
  | cons d label => rw [List.getLast?_cons_cons]; exact h.2

theorem isHostLabel_cons (h : EndsLabel label) (hc : isLowerAlnum c = true) :
    isHostLabel (c :: label) = true := by
  refine isHostLabel_iff.2 ⟨by simp, ?_, h.cons hc⟩
  rintro hhead
  obtain rfl := Option.some.inj hhead
  exact absurd hc (by decide)

/-- What is left of a host label behind a gap. Only behind no gap has the label begun, and only
behind hyphens has it to go on without a letter or digit having to come next. -/
def Gap.Completes : Gap → List Char → Prop
  | .none, label => EndsLabel label
  | .hyphens, label => EndsLabel label ∧ label ≠ []
  | _, label => isHostLabel label = true

theorem Gap.completes_of_isHostLabel (gap : Gap) (h : isHostLabel label = true) :
    gap.Completes label := by
  obtain ⟨hne, -, hends⟩ := isHostLabel_iff.1 h
  cases gap with
  | none => exact hends
  | hyphens => exact ⟨hends, hne⟩
  | period => exact h
  | underscore => exact h
  | underscores => exact h

/-- Without underscores the rest of a component is the rest of a label and further labels. -/
theorem exists_labels_of_continuesComponent {gap : Gap} (h : continuesComponent gap cs = true)
    (hscore : '_' ∉ cs) :
    ∃ label labels, pieces '.' cs = label :: labels ∧ gap.Completes label ∧
      ∀ l ∈ labels, isHostLabel l = true := by
  induction cs generalizing gap with
  | nil =>
    obtain rfl : gap = .none := by simpa [continuesComponent] using h
    exact ⟨[], [], rfl, EndsLabel.nil, by simp⟩
  | cons c cs ih =>
    have hne : c ≠ '_' := Ne.symm (List.ne_of_not_mem_cons hscore)
    have hscore : '_' ∉ cs := List.not_mem_of_not_mem_cons hscore
    unfold continuesComponent at h
    split at h
    · next hc =>
      -- a letter or digit begins a label, whatever gap stands before it
      obtain ⟨label, labels, hpieces, hlabel, hlabels⟩ := ih h hscore
      have hperiod : c ≠ '.' := by
        rintro rfl
        exact absurd hc (by decide)
      refine ⟨c :: label, labels, ?_, ?_, hlabels⟩
      · rw [pieces, if_neg hperiod, hpieces]
      · exact gap.completes_of_isHostLabel (isHostLabel_cons hlabel hc)
    · split at h
      · next gap' hgap =>
        obtain ⟨label, labels, hpieces, hlabel, hlabels⟩ := ih h hscore
        unfold Gap.push? at hgap
        split at hgap
        · -- a period ends the label, and the next one has to be whole
          obtain rfl := Option.some.inj hgap
          refine ⟨[], label :: labels, by rw [pieces, if_pos rfl, hpieces], EndsLabel.nil, ?_⟩
          intro l hl
          rcases List.mem_cons.1 hl with rfl | hl
          · exact hlabel
          · exact hlabels l hl
        · exact absurd rfl hne
        · exact absurd rfl hne
        · -- a hyphen behind a letter or digit, and a hyphen behind a hyphen
          obtain rfl := Option.some.inj hgap
          exact ⟨'-' :: label, labels, by rw [pieces, if_neg (by decide), hpieces],
            hlabel.1.hyphen hlabel.2, hlabels⟩
        · obtain rfl := Option.some.inj hgap
          exact ⟨'-' :: label, labels, by rw [pieces, if_neg (by decide), hpieces],
            ⟨hlabel.1.hyphen hlabel.2, by simp⟩, hlabels⟩
        · cases hgap
      · cases h

theorem isHost_of_isComponent (h : isComponent cs = true) (hscore : '_' ∉ cs) :
    isHost cs = true := by
  cases cs with
  | nil => cases h
  | cons c cs =>
    obtain ⟨hc, hcs⟩ := Bool.and_eq_true_iff.1 h
    have hperiod : c ≠ '.' := by
      rintro rfl
      exact absurd hc (by decide)
    obtain ⟨label, labels, hpieces, hlabel, hlabels⟩ :=
      exists_labels_of_continuesComponent hcs (List.not_mem_of_not_mem_cons hscore)
    rw [isHost, pieces, if_neg hperiod, hpieces, List.all_cons, isHostLabel_cons hlabel hc]
    exact List.all_eq_true.2 hlabels

/-- **A path component is a domain unless it holds an underscore.** -/
theorem isDomain_iff_of_isComponent (h : isComponent cs = true) :
    isDomain cs = true ↔ '_' ∉ cs := by
  refine ⟨fun hdomain => not_mem_of_all (isDomain_all hdomain) rfl, fun hscore => ?_⟩
  have hcolon : ':' ∉ cs := not_mem_of_all (isComponent_all h) rfl
  rw [isDomain, Text.cut?_eq_none_iff.2 hcolon]
  exact isHost_of_isComponent h hscore

end WorkloadImages.Reference

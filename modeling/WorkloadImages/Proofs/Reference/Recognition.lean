import WorkloadImages.Proofs.Reference.Host
import WorkloadImages.Proofs.Reference.Language

/-!
# Recognising the parts of references

Each function that recognises a part of a reference accepts exactly what its production derives.

## Main results

* `all_pieces_iff`: a text is cut at a separator into the parts that it is derived from
* `isComponent_iff`, `isDomain_iff`, `isName_iff`, `isTag_iff`: the parts that are recognised
* `exists_splitName?_iff`: the names that are split
-/

namespace WorkloadImages.Reference

open WorkloadImages.Reference.Language
open Text (pieces)

/-! ## Characters -/

theorem isLower_iff_le {c : Char} : c.isLower = true ↔ 'a' ≤ c ∧ c ≤ 'z' := by
  change (decide ('a'.val ≤ c.val) && decide (c.val ≤ 'z'.val)) = true ↔ _
  rw [Bool.and_eq_true, decide_eq_true_eq, decide_eq_true_eq]
  exact Iff.rfl

theorem isUpper_iff_le {c : Char} : c.isUpper = true ↔ 'A' ≤ c ∧ c ≤ 'Z' := by
  change decide ('A'.val ≤ c.val ∧ c.val ≤ 'Z'.val) = true ↔ _
  rw [decide_eq_true_eq]
  exact Iff.rfl

theorem isDigit_iff_digit {c : Char} : c.isDigit = true ↔ Digit c := by
  change (decide ('0'.val ≤ c.val) && decide (c.val ≤ '9'.val)) = true ↔ _
  rw [Bool.and_eq_true, decide_eq_true_eq, decide_eq_true_eq]
  exact Iff.rfl

theorem isLowerAlnum_iff {c : Char} : isLowerAlnum c = true ↔ LowerAlnum c := by
  rw [isLowerAlnum, Bool.or_eq_true, isLower_iff_le, isDigit_iff_digit]
  exact Iff.rfl

theorem isAlpha_iff {c : Char} : c.isAlpha = true ↔ Letter c := by
  change (c.isUpper || c.isLower) = true ↔ _
  rw [Bool.or_eq_true, isLower_iff_le, isUpper_iff_le, or_comm]
  exact Iff.rfl

theorem isAlphanum_iff_alnum {c : Char} : c.isAlphanum = true ↔ Alnum c := by
  change (c.isAlpha || c.isDigit) = true ↔ _
  rw [Bool.or_eq_true, isAlpha_iff, isDigit_iff_digit]
  exact Iff.rfl

theorem isLowerHexDigit_iff {c : Char} : isLowerHexDigit c = true ↔ LowerHex c := by
  simp [isLowerHexDigit, LowerHex, isDigit_iff_digit]

theorem isHexDigit_iff {c : Char} : isHexDigit c = true ↔ Hex c := by
  simp [isHexDigit, Hex, LowerHex, isDigit_iff_digit]

theorem all_iff {class? : Char → Bool} {Class : Char → Prop}
    (h : ∀ c, class? c = true ↔ Class c) {cs : List Char} :
    cs.all class? = true ↔ ∀ c ∈ cs, Class c := by
  rw [List.all_eq_true]
  exact forall₂_congr fun c _ => h c

/-! ## Repetition -/

/-- Parts joined by a separator are derived from the parts. -/
theorem separated_joined {sep : Char} {Part : List Char → Prop} {ps : List (List Char)}
    (hne : ps ≠ []) (h : ∀ p ∈ ps, Part p) :
    Separated (· = [sep]) Part (Text.joined sep ps) := by
  induction ps with
  | nil => exact absurd rfl hne
  | cons p ps ih =>
    have hp : Part p := h p List.mem_cons_self
    cases ps with
    | nil => exact .one hp
    | cons q ps =>
      have hrest := ih (List.cons_ne_nil q ps) fun r hr => h r (List.mem_cons_of_mem p hr)
      have hjoined : Text.joined sep (p :: q :: ps) = p ++ [sep] ++ Text.joined sep (q :: ps) := by
        simp [Text.joined]
      rw [hjoined]
      exact .cons hp rfl hrest

/-- **A text is cut at a separator into the parts that it is derived from**, as no part holds the
separator. -/
theorem all_pieces_iff {sep : Char} {part? : List Char → Bool} {Part : List Char → Prop}
    (h : ∀ cs, part? cs = true ↔ Part cs) (hsep : ∀ cs, part? cs = true → sep ∉ cs)
    {cs : List Char} :
    (pieces sep cs).all part? = true ↔ Separated (· = [sep]) Part cs := by
  constructor
  · intro hall
    rw [← Text.joined_pieces sep cs]
    refine separated_joined (Text.pieces_ne_nil sep cs) fun p hp => ?_
    exact (h p).1 (List.all_eq_true.1 hall p hp)
  · intro hderived
    induction hderived with
    | one hpart =>
      have hpart := (h _).2 hpart
      rw [Text.pieces_of_not_mem (hsep _ hpart), List.all_cons, hpart]
      rfl
    | cons hpart hseparator _ ih =>
      subst hseparator
      have hpart := (h _).2 hpart
      rw [List.append_assoc, List.singleton_append, Text.pieces_append (hsep _ hpart),
        List.all_cons, hpart, ih]
      rfl

/-! ## Components -/

/-- What has been read when a gap has been. -/
inductive Gap.Reads : Gap → List Char → Prop
  | none : Reads .none []
  | period : Reads .period ['.']
  | underscore : Reads .underscore ['_']
  | underscores : Reads .underscores ['_', '_']
  | hyphens (n : Nat) : Reads .hyphens (List.replicate (n + 1) '-')

variable {gap gap' : Gap} {cs run mark rest : List Char} {c : Char}

theorem Gap.Reads.push (h : gap.Reads mark) (hpush : gap.push? c = some gap') :
    gap'.Reads (mark ++ [c]) := by
  unfold Gap.push? at hpush
  split at hpush
  · cases h
    cases hpush
    exact .period
  · cases h
    cases hpush
    exact .underscore
  · cases h
    cases hpush
    exact .underscores
  · cases h
    cases hpush
    exact .hyphens 0
  · cases h with
    | hyphens n =>
      cases hpush
      rw [← List.replicate_succ']
      exact .hyphens (n + 1)
  · cases hpush

/-- Behind a gap a run begins, and the gap is what separates it from the run before. -/
theorem Gap.Reads.component (h : gap.Reads mark) (hrun : Run LowerAlnum run)
    (hrest : Component rest) (hne : gap ≠ .none) : Component (run ++ mark ++ rest) := by
  cases h with
  | none => exact absurd rfl hne
  | period => exact .cons hrun .period hrest
  | underscore => exact .cons hrun .underscore hrest
  | underscores => exact .cons hrun .underscores hrest
  | hyphens n => exact .cons hrun (.hyphens n) hrest

/-- What continues a component after a gap completes one behind a run and the gap. -/
theorem component_of_continuesComponent (h : continuesComponent gap cs = true)
    (hgap : gap.Reads mark) (hrun : Run LowerAlnum run) : Component (run ++ mark ++ cs) := by
  induction cs generalizing gap mark run with
  | nil =>
    have hnone : gap = .none := by simpa [continuesComponent] using h
    subst hnone
    cases hgap
    rw [List.append_nil, List.append_nil]
    exact .one hrun
  | cons c cs ih =>
    unfold continuesComponent at h
    split at h
    · next hc =>
      have hc := isLowerAlnum_iff.1 hc
      by_cases hne : gap = .none
      · -- The run goes on.
        subst hne
        cases hgap
        have hlonger := ih h .none (Run.concat hrun hc)
        simpa using hlonger
      · -- A new run begins behind the gap.
        have hnew := ih h .none (Run.singleton hc)
        exact hgap.component hrun (by simpa using hnew) hne
    · split at h
      · next gap' hpush =>
        have hlonger := ih h (hgap.push hpush) hrun
        simpa using hlonger
      · cases h

theorem continuesComponent_of_isComponent (gap : Gap) (h : isComponent cs = true) :
    continuesComponent gap cs = true := by
  cases cs with
  | nil => cases h
  | cons c cs =>
    obtain ⟨hc, hcs⟩ := Bool.and_eq_true_iff.1 h
    rw [continuesComponent, if_pos hc, hcs]

theorem continuesComponent_run (hrun : ∀ c ∈ run, LowerAlnum c) (rest : List Char) :
    continuesComponent .none (run ++ rest) = continuesComponent .none rest := by
  induction run with
  | nil => rfl
  | cons c run ih =>
    have hc := isLowerAlnum_iff.2 (hrun c List.mem_cons_self)
    rw [List.cons_append, continuesComponent, if_pos hc]
    exact ih fun d hd => hrun d (List.mem_cons_of_mem c hd)

theorem isComponent_run (hrun : Run LowerAlnum run) (rest : List Char) :
    isComponent (run ++ rest) = continuesComponent .none rest := by
  obtain ⟨hne, hall⟩ := hrun
  cases run with
  | nil => exact absurd rfl hne
  | cons c run =>
    have hc := isLowerAlnum_iff.2 (hall c List.mem_cons_self)
    rw [List.cons_append, isComponent, hc, Bool.true_and]
    exact continuesComponent_run (fun d hd => hall d (List.mem_cons_of_mem c hd)) rest

/-- A separator of runs is read as a gap. -/
theorem exists_gap_of_separator {separator : List Char} (h : ComponentSeparator separator)
    (rest : List Char) :
    ∃ gap, continuesComponent .none (separator ++ rest) = continuesComponent gap rest := by
  cases h with
  | period => exact ⟨.period, rfl⟩
  | underscore => exact ⟨.underscore, rfl⟩
  | underscores => exact ⟨.underscores, rfl⟩
  | hyphens n =>
    refine ⟨.hyphens, ?_⟩
    have hmore : continuesComponent .hyphens (List.replicate n '-' ++ rest) =
        continuesComponent .hyphens rest := by
      induction n with
      | zero => rfl
      | succ n ih => exact ih
    exact hmore

/-- **A text is recognised as a path component exactly if it is derived as one.** -/
theorem isComponent_iff : isComponent cs = true ↔ Component cs := by
  constructor
  · intro h
    cases cs with
    | nil => cases h
    | cons c cs =>
      obtain ⟨hc, hcs⟩ := Bool.and_eq_true_iff.1 h
      have hrun := Run.singleton (isLowerAlnum_iff.1 hc)
      simpa using component_of_continuesComponent hcs .none hrun
  · intro h
    induction h with
    | one hrun =>
      have hcomponent := isComponent_run hrun []
      rw [List.append_nil] at hcomponent
      exact hcomponent
    | cons hrun hseparator _ ih =>
      obtain ⟨gap, hgap⟩ := exists_gap_of_separator hseparator _
      rw [List.append_assoc, isComponent_run hrun, hgap]
      exact continuesComponent_of_isComponent gap ih

theorem isPath_iff : isPath cs = true ↔ Path cs :=
  all_pieces_iff (fun _ => isComponent_iff) fun _ h =>
    Text.not_mem_of_all (isComponent_all h) rfl

/-! ## Domains -/

theorem isAlphanum_or_hyphen_iff (c : Char) :
    (c.isAlphanum || c = '-') = true ↔ Alnum c ∨ c = '-' := by
  rw [Bool.or_eq_true, isAlphanum_iff_alnum, decide_eq_true_eq]

theorem Language.Alnum.ne_hyphen (h : Alnum c) : c ≠ '-' := by
  rintro rfl
  exact absurd (isAlphanum_iff_alnum.2 h) (by decide)

/-- Letters, digits and hyphens are a label if no hyphen stands at either end. -/
theorem label_of_ends (hne : cs ≠ []) (hall : ∀ c ∈ cs, Alnum c ∨ c = '-')
    (hhead : cs.head? ≠ some '-') (hlast : cs.getLast? ≠ some '-') : Label cs := by
  cases cs with
  | nil => exact absurd rfl hne
  | cons first rest =>
    have hfirst : Alnum first := by
      refine (hall first List.mem_cons_self).resolve_right ?_
      rintro rfl
      exact hhead rfl
    rcases List.eq_nil_or_concat rest with rfl | ⟨inner, last, rfl⟩
    · exact .one hfirst
    · rw [List.concat_eq_append] at hall hlast ⊢
      rw [← List.cons_append, List.getLast?_concat] at hlast
      have hend : Alnum last := by
        refine (hall last (by simp)).resolve_right ?_
        rintro rfl
        exact hlast rfl
      exact .ends hfirst (fun c hc => hall c (by simp [hc])) hend

/-- **A text is recognised as a host label exactly if it is derived as one.** -/
theorem isHostLabel_iff_label : isHostLabel cs = true ↔ Label cs := by
  rw [isHostLabel_iff]
  have hclass : cs.all (fun c => c.isAlphanum || c = '-') = true ↔ ∀ c ∈ cs, Alnum c ∨ c = '-' :=
    all_iff isAlphanum_or_hyphen_iff
  constructor
  · rintro ⟨hne, hhead, hall, hlast⟩
    exact label_of_ends hne (hclass.1 hall) hhead hlast
  · intro h
    cases h with
    | one hc =>
      refine ⟨by simp, by simpa using hc.ne_hyphen, hclass.2 ?_, by simpa using hc.ne_hyphen⟩
      intro d hd
      rw [List.mem_singleton.1 hd]
      exact Or.inl hc
    | ends hfirst hinner hlast =>
      refine ⟨by simp, by simpa using hfirst.ne_hyphen, hclass.2 ?_, ?_⟩
      · intro c hc
        rw [List.mem_cons, List.mem_append, List.mem_singleton] at hc
        rcases hc with rfl | hc | rfl
        · exact Or.inl hfirst
        · exact hinner c hc
        · exact Or.inl hlast
      · rw [← List.cons_append, List.getLast?_concat]
        simpa using hlast.ne_hyphen

theorem isHost_iff : isHost cs = true ↔ Host cs := by
  refine all_pieces_iff (fun _ => isHostLabel_iff_label) fun label hlabel hperiod => ?_
  -- A label holds letters, digits and hyphens only.
  have hall := (isHostLabel_iff.1 hlabel).2.2.1
  exact Text.not_mem_of_all hall rfl hperiod

theorem isPort_iff : isPort cs = true ↔ Run Digit cs := by
  rw [isPort, Bool.and_eq_true, all_iff fun _ => isDigit_iff_digit, Bool.not_eq_true',
    List.isEmpty_eq_false_iff]
  exact Iff.rfl

theorem colon_not_mem_of_host {host : List Char} (h : Host host) : ':' ∉ host := by
  intro hmem
  have hlabels := List.all_eq_true.1 (isHost_iff.2 h)
  rw [← Text.joined_pieces '.' host] at hmem
  rcases Text.mem_joined hmem with hperiod | ⟨label, hlabel, hmem⟩
  · exact absurd hperiod (by decide)
  · have hall := (isHostLabel_iff.1 (hlabels label hlabel)).2.2.1
    exact Text.not_mem_of_all hall rfl hmem

/-- **A text is recognised as a domain exactly if it is derived as one.** The first colon is the one
before the port, as a host holds none. -/
theorem isDomain_iff : isDomain cs = true ↔ Domain cs := by
  constructor
  · intro h
    unfold isDomain at h
    split at h
    · next host port hcut =>
      obtain ⟨-, rfl⟩ := Text.cut?_eq_some_iff.1 hcut
      obtain ⟨hhost, hport⟩ := Bool.and_eq_true_iff.1 h
      exact .port (isHost_iff.1 hhost) (isPort_iff.1 hport)
    · exact .host (isHost_iff.1 h)
  · intro h
    unfold isDomain
    cases h with
    | host hhost =>
      rw [Text.cut?_eq_none_iff.2 (colon_not_mem_of_host hhost)]
      exact isHost_iff.2 hhost
    | port hhost hport =>
      rw [Text.cut?_append (colon_not_mem_of_host hhost)]
      exact Bool.and_eq_true_iff.2 ⟨isHost_iff.2 hhost, isPort_iff.2 hport⟩

/-! ## Names -/

/-- **A text is recognised as a name exactly if it is derived as one.** A domain holds no slash, so
that it stands before the first one. -/
theorem isName_iff : isName cs = true ↔ Name cs := by
  constructor
  · intro h
    rw [isName, Bool.or_eq_true] at h
    rcases h with hpath | h
    · exact .path (isPath_iff.1 hpath)
    · split at h
      · next domain path hcut =>
        obtain ⟨-, rfl⟩ := Text.cut?_eq_some_iff.1 hcut
        obtain ⟨hdomain, hpath⟩ := Bool.and_eq_true_iff.1 h
        exact .domain (isDomain_iff.1 hdomain) (isPath_iff.1 hpath)
      · cases h
  · intro h
    cases h with
    | path hpath => rw [isName, isPath_iff.2 hpath, Bool.true_or]
    | domain hdomain hpath =>
      have hdomain := isDomain_iff.2 hdomain
      have hslash := Text.not_mem_of_all (isDomain_all hdomain) (by rfl : isDomainChar '/' = false)
      rw [isName, Text.cut?_append hslash]
      dsimp only
      rw [hdomain, isPath_iff.2 hpath, Bool.and_true, Bool.or_true]

/-- **A text is split as a name exactly if it is derived as one.** -/
theorem exists_splitName?_iff : (∃ split, splitName? cs = some split) ↔ Name cs := by
  rw [← Option.isSome_iff_exists, isSome_splitName?, isName_iff]

/-! ## Tags -/

/-- **A text is recognised as a tag exactly if it is derived as one.** -/
theorem isTag_iff : isTag cs = true ↔ Tag cs := by
  have hclass : ∀ c : Char, (c.isAlphanum || c = '_' || c = '.' || c = '-') = true ↔
      Alnum c ∨ c = '_' ∨ c = '.' ∨ c = '-' := by
    intro c
    simp [isAlphanum_iff_alnum, or_assoc]
  constructor
  · intro h
    cases cs with
    | nil => cases h
    | cons first rest =>
      rw [isTag, Bool.and_eq_true, Bool.and_eq_true, all_iff hclass, decide_eq_true_eq,
        Bool.or_eq_true, isAlphanum_iff_alnum, decide_eq_true_eq] at h
      obtain ⟨⟨hfirst, hlength⟩, hrest⟩ := h
      exact .mk hfirst (Nat.le_of_lt_succ hlength) hrest
  · intro h
    cases h with
    | mk hfirst hlength hrest =>
      rw [isTag, Bool.and_eq_true, Bool.and_eq_true, all_iff hclass, decide_eq_true_eq,
        Bool.or_eq_true, isAlphanum_iff_alnum, decide_eq_true_eq]
      exact ⟨⟨hfirst, Nat.lt_succ_of_le hlength⟩, hrest⟩

end WorkloadImages.Reference

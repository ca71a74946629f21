import WorkloadImages.Proofs.Reference.Digest
import WorkloadImages.Proofs.Reference.Domain

/-!
# Which references are read, and how they are split

A text is read exactly if the grammar accepts it. The parts that it is read as are the only ones
that spell it, and put together again they give the text back. Only the split of a name into a
domain and a path is not settled by the grammar: the first of several segments is the domain if it
can be one.

## Main definitions

* `fullName`, `written`: the parts of a reference put together

## Main results

* `exists_parse_eq_ok_iff`: the references that are read
* `parse_split`: how they are split
-/

namespace WorkloadImages.Reference

open WorkloadImages.Reference.Language

/-- The name of a reference: the path, behind the domain and a slash if there is a domain. -/
def fullName (reference : Reference) : String :=
  if reference.domain = "" then reference.path else reference.domain ++ "/" ++ reference.path

/-- The text of a reference: the name, the tag after a colon, the digest after an at sign. -/
def written (reference : Reference) : String :=
  reference.fullName ++ (reference.tag.map (":" ++ ·)).getD "" ++
    (reference.digest.map ("@" ++ ·)).getD ""

variable {parts : Parts} {name cs : List Char} {tag digest : Option (List Char)} {text : String}
  {reference : Reference}

/-! ## Parts and spellings -/

theorem Parts.WellFormed.spells (h : parts.WellFormed) :
    Spells parts.name parts.tag parts.digest parts.text := by
  refine .mk (isName_iff.1 h.name) ?_ ?_
  · intro part hpart
    exact isTag_iff.1 (h.tag part hpart)
  · intro part hpart
    exact isDigestText_iff.1 (h.digest part hpart)

/-- What spells a text are parts of it. -/
theorem exists_parts_of_spells (h : Spells name tag digest cs) :
    ∃ parts : Parts, parts.WellFormed ∧ parts.text = cs ∧ parts.name = name ∧ parts.tag = tag ∧
      parts.digest = digest := by
  obtain ⟨hname, htag, hdigest⟩ := h
  refine ⟨⟨name, tag, digest⟩, ⟨isName_iff.2 hname, ?_, ?_⟩, rfl, rfl, rfl, rfl⟩
  · intro part hpart
    exact isTag_iff.2 (htag part hpart)
  · intro part hpart
    exact isDigestText_iff.2 (hdigest part hpart)

/-- A text is spelled in one way at most. -/
theorem Parts.WellFormed.eq_of_spells (h : parts.WellFormed)
    (hspells : Spells name tag digest parts.text) :
    name = parts.name ∧ tag = parts.tag ∧ digest = parts.digest := by
  obtain ⟨others, hothers, htext, rfl, rfl, rfl⟩ := exists_parts_of_spells hspells
  have hread := Parts.ofText?_text hothers
  rw [htext, Parts.ofText?_text h] at hread
  obtain rfl := Option.some.inj hread
  exact ⟨rfl, rfl, rfl⟩

/-- **The references that are read** are those that the grammar accepts. -/
theorem exists_parse_eq_ok_iff (text : String) :
    (∃ reference, parse text = .ok reference) ↔ Accepted text.toList := by
  constructor
  · rintro ⟨reference, h⟩
    obtain ⟨parts, hforms, hlimits, htext, -⟩ := parse_eq_ok_iff.1 h
    rw [← htext]
    refine .mk (isName_iff.1 hforms.name) ?_ ?_ ?_
    · rw [hforms.byteLength_name]
      exact hlimits.name
    · intro part hpart
      exact isTag_iff.1 (hforms.tag part hpart)
    · intro part hpart
      exact checkDigest_eq_ok_iff.1 (hlimits.digest part hpart)
  · intro h
    -- A digest by a known algorithm passes both readings of it.
    generalize hcs : text.toList = cs at h
    obtain ⟨hname, hlength, htag, hdigest⟩ := h
    obtain ⟨parts, hforms, htext, rfl, rfl, rfl⟩ := exists_parts_of_spells
      (.mk hname htag fun part hpart => (hdigest part hpart).digest)
    have hlimits : parts.WithinLimits := by
      refine ⟨?_, fun part hpart => checkDigest_eq_ok_iff.2 (hdigest part hpart)⟩
      rw [← hforms.byteLength_name]
      exact hlength
    exact ⟨_, parse_eq_ok_iff.2 ⟨parts, hforms, hlimits, htext.trans hcs.symm, rfl⟩⟩

/-! ## Putting together -/

/-- How a name is split into the domain and the path. -/
theorem Parts.WellFormed.split (h : parts.WellFormed) :
    ('/' ∈ parts.name ∧ Domain (leadingSegment parts.name) ∧
        parts.domain = leadingSegment parts.name ∧
        parts.name = parts.domain ++ '/' :: parts.path) ∨
      (¬ ('/' ∈ parts.name ∧ Domain (leadingSegment parts.name)) ∧ parts.domain = [] ∧
        parts.path = parts.name) := by
  rcases exists_of_splitName? h.splitName?_eq with
    ⟨hslash, -, hsplit⟩ | ⟨first, path, hfirst, hname, -, hcases⟩
  · obtain ⟨hdomain, hpath⟩ := Prod.mk.inj hsplit
    exact Or.inr ⟨fun hseveral => hslash hseveral.1, hdomain, hpath⟩
  · have hsegment : leadingSegment parts.name = first := by
      rw [hname, leadingSegment_append hfirst]
    rw [hsegment]
    rcases hcases with ⟨hdomain, hsplit⟩ | ⟨hdomain, -, hsplit⟩
    · obtain ⟨hd, hp⟩ := Prod.mk.inj hsplit
      refine Or.inl ⟨by simp [hname], isDomain_iff.1 hdomain, hd, ?_⟩
      rw [hd, hp]
      exact hname
    · obtain ⟨hd, hp⟩ := Prod.mk.inj hsplit
      refine Or.inr ⟨fun hseveral => ?_, hd, hp⟩
      rw [isDomain_iff.2 hseveral.2] at hdomain
      cases hdomain

theorem Parts.WellFormed.leadingSegment_ne_nil (h : parts.WellFormed) :
    leadingSegment parts.name ≠ [] := by
  rcases exists_of_splitName? h.splitName?_eq with
    ⟨hslash, hcomponent, -⟩ | ⟨first, path, hfirst, hname, -, hcases⟩
  · rw [leadingSegment_of_not_mem hslash]
    intro hnil
    rw [hnil] at hcomponent
    cases hcomponent
  · rw [hname, leadingSegment_append hfirst]
    rintro rfl
    rcases hcases with ⟨hdomain, -⟩ | ⟨-, hcomponent, -⟩
    · exact absurd hdomain (by decide)
    · cases hcomponent

theorem fullName_toReference (h : parts.WellFormed) :
    parts.toReference.fullName = String.ofList parts.name := by
  unfold fullName Parts.toReference
  rcases h.split with ⟨-, -, hleading, hname⟩ | ⟨-, hdomain, hpath⟩
  · have hne : String.ofList parts.domain ≠ "" := by
      rw [hleading]
      simpa using h.leadingSegment_ne_nil
    rw [if_neg hne, ← String.toList_inj]
    simp [hname]
  · rw [hdomain, if_pos rfl, hpath]

theorem written_toReference (h : parts.WellFormed) :
    parts.toReference.written = String.ofList parts.text := by
  have hname := fullName_toReference h
  rw [← String.toList_inj] at hname ⊢
  unfold written Parts.text
  rw [String.toList_append, String.toList_append, hname]
  unfold Parts.toReference
  cases parts.tag <;> cases parts.digest <;> simp

/-- **A reference is split without loss and in one way only.** The parts put together give the text;
no other name, tag and digest spell it; the first segment of a name with several is the domain
exactly if it can be one, and else the whole name is the path. What is spelled as a name is split
without fail. -/
theorem parse_split (h : parse text = .ok reference) :
    reference.written = text ∧
      (∀ name tag digest, Spells name tag digest text.toList →
        String.ofList name = reference.fullName ∧ tag.map String.ofList = reference.tag ∧
          digest.map String.ofList = reference.digest) ∧
      (reference.domain = String.ofList (leadingSegment reference.fullName.toList) ↔
        '/' ∈ reference.fullName.toList ∧
          Domain (leadingSegment reference.fullName.toList)) ∧
      (¬ ('/' ∈ reference.fullName.toList ∧
          Domain (leadingSegment reference.fullName.toList)) →
        reference.domain = "" ∧ reference.path = reference.fullName) ∧
      splitName? reference.fullName.toList =
        some (reference.domain.toList, reference.path.toList) ∧
      ∀ name, Name name → ∃ split, splitName? name = some split := by
  obtain ⟨parts, hforms, -, htext, rfl⟩ := parse_eq_ok_iff.1 h
  rw [fullName_toReference hforms, written_toReference hforms, htext, String.ofList_toList,
    String.toList_ofList]
  refine ⟨rfl, ?_, ?_, ?_, ?_, fun name => exists_splitName?_iff.2⟩
  · intro name tag digest hspells
    rw [← htext] at hspells
    obtain ⟨rfl, rfl, rfl⟩ := hforms.eq_of_spells hspells
    exact ⟨rfl, rfl, rfl⟩
  · rcases hforms.split with ⟨hslash, hdomain, hleading, -⟩ | ⟨hnot, hdomain, -⟩
    · exact iff_of_true (congrArg String.ofList hleading) ⟨hslash, hdomain⟩
    · refine iff_of_false (fun heq => hforms.leadingSegment_ne_nil ?_) hnot
      have hlists := congrArg String.toList heq
      rw [String.toList_ofList] at hlists
      rw [← hlists, Parts.toReference, String.toList_ofList, hdomain]
  · intro hnot
    rcases hforms.split with ⟨hslash, hdomain, -⟩ | ⟨-, hdomain, hpath⟩
    · exact absurd ⟨hslash, hdomain⟩ hnot
    · exact ⟨congrArg String.ofList hdomain, congrArg String.ofList hpath⟩
  · simp [Parts.toReference, hforms.splitName?_eq]

/-- The colon of a port, the colon before a tag and the colon in a digest are told apart. -/
theorem parse_split_port :
    let digest := "sha256:" ++ String.ofList (List.replicate 64 'f')
    let text := "host:80/a_b/c:v1@" ++ digest
    parse text = .ok ⟨"host:80", "a_b/c", some "v1", some digest⟩ ∧
      written ⟨"host:80", "a_b/c", some "v1", some digest⟩ = text ∧
      ∀ name tag hash, Spells name tag hash text.toList →
        String.ofList name = "host:80/a_b/c" ∧ tag.map String.ofList = some "v1" ∧
          hash.map String.ofList = some digest := by
  have h : parse ("host:80/a_b/c:v1@" ++
      ("sha256:" ++ String.ofList (List.replicate 64 'f'))) =
        .ok ⟨"host:80", "a_b/c", some "v1",
          some ("sha256:" ++ String.ofList (List.replicate 64 'f'))⟩ := by
    rfl
  obtain ⟨hwritten, hspells, -⟩ := parse_split h
  exact ⟨h, hwritten, hspells⟩

end WorkloadImages.Reference

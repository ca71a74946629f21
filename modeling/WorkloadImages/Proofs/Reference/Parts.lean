import WorkloadImages.Proofs.Reference.Characters

/-!
# The parts of a reference put together

The parts that a reference is split into, written out again, give its text, and no other parts do:
the marks between them are told apart by the characters that each part may hold.

## Main definitions

* `Parts.text`: the text of parts
* `Parts.WellFormed`: every part has its form
* `Parts.domain`, `Parts.path`: what the name of parts is split into

## Main results

* `splitName?_append`, `splitName?_of_not_mem`: the domain and the path of a name
* `isSome_splitName?`: every name is split
* `splitTag_name`: the tag behind a name is found there
* `ofText?_eq_some_iff`: a text is split into parts exactly if it is their text
-/

namespace WorkloadImages.Reference

open Text (cut? pieces joined not_mem_of_all)

/-! ## Names -/

section Names

variable {first path name : List Char}

theorem isPath_of_not_mem (h : '/' ∉ path) : isPath path = isComponent path := by
  simp [isPath, Text.pieces_of_not_mem h]

theorem isPath_append (h : '/' ∉ first) :
    isPath (first ++ '/' :: path) = (isComponent first && isPath path) := by
  simp [isPath, Text.pieces_append h]

/-- A path holds characters of components, and slashes. -/
theorem mem_isPath (h : isPath path = true) {c : Char} (hc : c ∈ path) :
    isComponentChar c = true ∨ c = '/' := by
  -- The path is its components joined again, and the slash is all that joining adds.
  rw [← Text.joined_pieces '/' path] at hc
  rcases Text.mem_joined hc with rfl | ⟨component, hcomponent, hc⟩
  · exact Or.inr rfl
  · exact Or.inl
      (List.all_eq_true.1 (isComponent_all (List.all_eq_true.1 h component hcomponent)) c hc)

theorem splitName?_of_not_mem (h : '/' ∉ name) :
    splitName? name = if isComponent name then some ([], name) else none := by
  simp [splitName?, Text.pieces_of_not_mem h]

/-- The first of several segments is the domain if it can be; else it begins the path. -/
theorem splitName?_append (h : '/' ∉ first) :
    splitName? (first ++ '/' :: path) =
      if isPath path then
        if isDomain first then some (first, path)
        else if isComponent first then some ([], first ++ '/' :: path) else none
      else none := by
  obtain ⟨second, rest, hpath⟩ : ∃ second rest, pieces '/' path = second :: rest :=
    List.exists_cons_of_ne_nil (Text.pieces_ne_nil '/' path)
  have hjoined : joined '/' (second :: rest) = path := hpath ▸ Text.joined_pieces '/' path
  unfold splitName?
  rw [Text.pieces_append h, hpath]
  simp only [hjoined, isPath, hpath, Bool.not_eq_true']
  cases hall : (second :: rest).all isComponent <;> simp

/-- **A name is split without fail**: what is recognised as a name has a path behind its domain, or
is a path. -/
theorem isSome_splitName? (name : List Char) : (splitName? name).isSome = isName name := by
  unfold isName
  by_cases hslash : '/' ∈ name
  · obtain ⟨first, path, rfl, hfirst⟩ := List.eq_append_cons_of_mem hslash
    rw [splitName?_append hfirst, isPath_append hfirst, Text.cut?_append hfirst]
    dsimp only
    cases isPath path <;> cases isDomain first <;> cases isComponent first <;> rfl
  · rw [splitName?_of_not_mem hslash, isPath_of_not_mem hslash, Text.cut?_eq_none_iff.2 hslash]
    cases isComponent name <;> rfl

/-- A name is a component, or a segment that is a domain or a component with a path behind it. -/
theorem exists_of_splitName? {split : List Char × List Char} (h : splitName? name = some split) :
    ('/' ∉ name ∧ isComponent name = true ∧ split = ([], name)) ∨
      ∃ first path, '/' ∉ first ∧ name = first ++ '/' :: path ∧ isPath path = true ∧
        ((isDomain first = true ∧ split = (first, path)) ∨
          (isDomain first = false ∧ isComponent first = true ∧ split = ([], name))) := by
  by_cases hslash : '/' ∈ name
  · right
    obtain ⟨first, path, rfl, hfirst⟩ := List.eq_append_cons_of_mem hslash
    rw [splitName?_append hfirst] at h
    refine ⟨first, path, hfirst, rfl, ?_⟩
    split at h
    · next hpath =>
      refine ⟨hpath, ?_⟩
      split at h
      · next hdomain => exact Or.inl ⟨hdomain, (Option.some.inj h).symm⟩
      · next hdomain =>
        split at h
        · next hcomponent =>
          exact Or.inr ⟨Bool.not_eq_true _ ▸ hdomain, hcomponent, (Option.some.inj h).symm⟩
        · exact absurd h (by simp)
    · exact absurd h (by simp)
  · left
    rw [splitName?_of_not_mem hslash] at h
    split at h
    · next hcomponent => exact ⟨hslash, hcomponent, (Option.some.inj h).symm⟩
    · exact absurd h (by simp)

/-- A name holds characters of domains and components, and slashes. -/
theorem mem_of_splitName? {split : List Char × List Char} (h : splitName? name = some split)
    {c : Char} (hc : c ∈ name) :
    isDomainChar c = true ∨ isComponentChar c = true ∨ c = '/' := by
  rcases exists_of_splitName? h with ⟨-, hname, -⟩ | ⟨first, path, -, rfl, hpath, hfirst⟩
  · exact Or.inr (Or.inl (List.all_eq_true.1 (isComponent_all hname) c hc))
  · rcases List.mem_append.1 hc with hc | hc
    · rcases hfirst with ⟨hfirst, -⟩ | ⟨-, hfirst, -⟩
      · exact Or.inl (List.all_eq_true.1 (isDomain_all hfirst) c hc)
      · exact Or.inr (Or.inl (List.all_eq_true.1 (isComponent_all hfirst) c hc))
    · rcases List.mem_cons.1 hc with rfl | hc
      · exact Or.inr (Or.inr rfl)
      · exact Or.inr (mem_isPath hpath hc)

end Names

/-! ## Names and tags -/

/-- A part with the mark that stands before it, if there is one. -/
def marked (mark : Char) : Option (List Char) → List Char
  | none => []
  | some cs => mark :: cs

@[simp] theorem marked_none (mark : Char) : marked mark none = [] := rfl

@[simp] theorem marked_some (mark : Char) (cs : List Char) : marked mark (some cs) = mark :: cs :=
  rfl

/-- A part behind its mark is told from what stands before, if that does not hold the mark. -/
theorem append_marked_inj {mark : Char} {cs cs' : List Char} {part part' : Option (List Char)}
    (h : mark ∉ cs) (h' : mark ∉ cs') :
    cs ++ marked mark part = cs' ++ marked mark part' ↔ cs = cs' ∧ part = part' := by
  cases part with
  | none =>
    cases part' with
    | none => simp
    | some back =>
      rw [marked_none, List.append_nil, marked_some]
      refine iff_of_false ?_ (fun heq => nomatch heq.2)
      rintro rfl
      exact h (List.mem_append_right cs' List.mem_cons_self)
  | some back =>
    cases part' with
    | none =>
      rw [marked_none, List.append_nil, marked_some]
      refine iff_of_false ?_ (fun heq => nomatch heq.2)
      rintro rfl
      exact h' (List.mem_append_right cs List.mem_cons_self)
    | some back' =>
      rw [marked_some, marked_some, Text.append_sep_inj h h', Option.some.injEq]

/-- Any text is a part without the mark and, if it holds one, what is behind the first. -/
theorem exists_marked (mark : Char) (cs : List Char) :
    ∃ front back, mark ∉ front ∧ cs = front ++ marked mark back := by
  by_cases hmem : mark ∈ cs
  · obtain ⟨front, back, rfl, hfront⟩ := List.eq_append_cons_of_mem hmem
    exact ⟨front, some back, hfront, rfl⟩
  · exact ⟨cs, none, hmem, (List.append_nil cs).symm⟩

theorem splitTag_append_slash (front back : List Char) :
    splitTag (front ++ '/' :: back) =
      (front ++ '/' :: (splitTag back).1, (splitTag back).2) := by
  induction front with
  | nil => simp [splitTag]
  | cons c front ih =>
    have hslash : '/' ∈ front ++ '/' :: back := by simp
    simp [splitTag, hslash, ih]

theorem splitTag_append {front : List Char} (h : ':' ∉ front) (back : List Char) :
    splitTag (front ++ back) = (front ++ (splitTag back).1, (splitTag back).2) := by
  induction front with
  | nil => rfl
  | cons c front ih =>
    obtain ⟨hc, hfront⟩ := List.ne_and_not_mem_of_not_mem_cons h
    simp [splitTag, Ne.symm hc, ih hfront]

theorem splitTag_marked {cs : List Char} {tag : Option (List Char)} (hcs : ':' ∉ cs)
    (htag : ∀ cs ∈ tag, '/' ∉ cs) : splitTag (cs ++ marked ':' tag) = (cs, tag) := by
  rw [splitTag_append hcs]
  cases tag with
  | none => simp [splitTag]
  | some tag => simp [splitTag, htag tag rfl]

/-- The colon before a tag is found behind every name: a colon in the name has a slash after it. -/
theorem splitTag_name {name : List Char} {split : List Char × List Char}
    {tag : Option (List Char)} (hname : splitName? name = some split)
    (htag : ∀ cs ∈ tag, '/' ∉ cs) : splitTag (name ++ marked ':' tag) = (name, tag) := by
  rcases exists_of_splitName? hname with ⟨-, hcomponent, -⟩ | ⟨first, path, -, rfl, hpath, -⟩
  · exact splitTag_marked (not_mem_of_all (isComponent_all hcomponent) rfl) htag
  · -- The first segment may be a host with a port; behind the slash there is no colon.
    have hcolon : ':' ∉ path := fun hmem => absurd (mem_isPath hpath hmem) (by decide)
    rw [List.append_assoc, List.cons_append, splitTag_append_slash, splitTag_marked hcolon htag]

theorem splitTag_eq {cs name : List Char} {tag : Option (List Char)}
    (h : splitTag cs = (name, tag)) : name ++ marked ':' tag = cs := by
  induction cs generalizing name with
  | nil =>
    obtain ⟨rfl, rfl⟩ := Prod.mk.inj h
    rfl
  | cons c cs ih =>
    unfold splitTag at h
    split at h
    · next hc =>
      obtain ⟨rfl, rfl⟩ := Prod.mk.inj h
      simp [hc.1]
    · obtain ⟨rfl, rfl⟩ := Prod.mk.inj h
      rw [List.cons_append, ih rfl]

/-! ## Whole references -/

namespace Parts

/-- The text of parts: the name, the tag after a colon, the digest after an at sign. -/
def text (parts : Parts) : List Char :=
  parts.name ++ marked ':' parts.tag ++ marked '@' parts.digest

/-- Every part has its form. -/
structure WellFormed (parts : Parts) : Prop where
  name : isName parts.name = true
  tag : ∀ cs ∈ parts.tag, isTag cs = true
  digest : ∀ cs ∈ parts.digest, isDigestText cs = true

/-- The domain in the name, empty when there is none. -/
def domain (parts : Parts) : List Char := ((splitName? parts.name).getD ([], [])).1

/-- The path in the name. -/
def path (parts : Parts) : List Char := ((splitName? parts.name).getD ([], [])).2

variable {parts : Parts}

theorem WellFormed.splitName?_eq (h : parts.WellFormed) :
    splitName? parts.name = some (parts.domain, parts.path) := by
  have hsome := isSome_splitName? parts.name
  rw [h.name] at hsome
  obtain ⟨split, hsplit⟩ := Option.isSome_iff_exists.1 hsome
  rw [domain, path, hsplit]
  rfl

theorem WellFormed.at_not_mem_name (h : parts.WellFormed) : '@' ∉ parts.name := by
  intro hmem
  exact absurd (mem_of_splitName? h.splitName?_eq hmem) (by decide)

theorem WellFormed.text_ne_nil (h : parts.WellFormed) : parts.text ≠ [] := by
  intro hnil
  have hname : parts.name = [] := by
    simp only [text, List.append_eq_nil_iff] at hnil
    exact hnil.1.1
  have hempty := h.name
  rw [hname] at hempty
  cases hempty

theorem WellFormed.not_mem_tag (h : parts.WellFormed) {c : Char} (hc : isTagChar c = false) :
    ∀ cs ∈ parts.tag, c ∉ cs :=
  fun cs hcs => not_mem_of_all (isTag_all (h.tag cs hcs)) hc

theorem WellFormed.at_not_mem_marked_tag (h : parts.WellFormed) : '@' ∉ marked ':' parts.tag := by
  cases htag : parts.tag with
  | none => exact List.not_mem_nil
  | some tag =>
    rw [marked_some]
    exact List.not_mem_cons_of_ne_of_not_mem (by decide) (h.not_mem_tag rfl tag htag)

/-- The at sign before a digest is the first one. -/
theorem ofText?_marked {named : List Char} {digest : Option (List Char)} (h : '@' ∉ named) :
    ofText? (named ++ marked '@' digest) =
      if isName (splitTag named).1 && (splitTag named).2.all isTag && digest.all isDigestText then
        some ⟨(splitTag named).1, (splitTag named).2, digest⟩
      else none := by
  unfold ofText?
  cases digest with
  | none => rw [marked_none, List.append_nil, Text.cut?_eq_none_iff.2 h]
  | some digest => rw [marked_some, Text.cut?_append h]

theorem ofText?_text (h : parts.WellFormed) : ofText? parts.text = some parts := by
  -- Neither the name nor the tag holds an at sign, so the first one stands before the digest.
  have hat : '@' ∉ parts.name ++ marked ':' parts.tag := by
    rw [List.mem_append]
    rintro (hmem | hmem)
    · exact h.at_not_mem_name hmem
    · exact h.at_not_mem_marked_tag hmem
  have htag : parts.tag.all isTag = true := Option.all_eq_true .. |>.2 h.tag
  have hdigest : parts.digest.all isDigestText = true := Option.all_eq_true .. |>.2 h.digest
  have hsplit := splitTag_name h.splitName?_eq (h.not_mem_tag rfl)
  rw [text, ofText?_marked hat, hsplit, h.name, htag, hdigest]
  rfl

theorem wellFormed_of_ofText? {cs : List Char} (h : ofText? cs = some parts) :
    parts.WellFormed ∧ parts.text = cs := by
  obtain ⟨named, digest, hat, rfl⟩ := exists_marked '@' cs
  rw [ofText?_marked hat] at h
  split at h
  · next hforms =>
    obtain ⟨hnamed, hdigest⟩ := Bool.and_eq_true_iff.1 hforms
    obtain ⟨hname, htag⟩ := Bool.and_eq_true_iff.1 hnamed
    obtain rfl := Option.some.inj h
    refine ⟨⟨hname, Option.all_eq_true .. |>.1 htag, Option.all_eq_true .. |>.1 hdigest⟩, ?_⟩
    rw [text, splitTag_eq rfl]
  · exact absurd h (by simp)

/-- **A text is split into parts exactly if the parts are well-formed and it is their text.** -/
theorem ofText?_eq_some_iff {cs : List Char} :
    ofText? cs = some parts ↔ parts.WellFormed ∧ parts.text = cs :=
  ⟨wellFormed_of_ofText?, fun ⟨h, e⟩ => e ▸ ofText?_text h⟩

end Parts

end WorkloadImages.Reference

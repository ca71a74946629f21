import Mathlib.Data.List.Forall2
import WorkloadImages.Proofs.Reference.Splitting
import WorkloadImages.Proofs.Text.Lowercase

/-!
# References in uppercase

A text outside the language whose lowercase form is in it is refused for the capital letters of its
name. Bringing a text into lowercase moves none of the marks between its parts, and a tag or a
digest is as good in lowercase as it was before, so the name is to blame. The exception is the
Kelvin sign: it has no place in a reference, and its lowercase form has.

## Main definitions

* `InLanguage`: the texts that are spelled by a name, a tag and a digest
* `NameAtFault`: a text of which nothing but the name has to be brought into lowercase
* `KelvinBehindName`: a text that a Kelvin sign in the tag or the digest keeps out of the language

## Main results

* `inLanguage_iff_of_finalSigma`: the lowercase form of a final sigma does not matter
* `Cut.map_lowercase`: the parts of a text in lowercase are the parts in lowercase
* `tag_iff_lowercase`, `digest_iff_lowercase`: tags and digests in lowercase
* `parse_containsUppercase_iff`: when the name is blamed
-/

namespace WorkloadImages.Reference

open WorkloadImages.Reference.Language
open Text (IsMark kelvinSign lowercase)

variable {name cs : List Char} {tag digest : Option (List Char)} {text : String}

/-! ## The language -/

/-- A text is spelled by a name, a tag and a digest. -/
def InLanguage (cs : List Char) : Prop := ∃ name tag digest, Spells name tag digest cs

/-- A text is as it should be but for the case of letters in its name. -/
def NameAtFault (cs : List Char) : Prop :=
  ∃ name tag digest, cs = name ++ marked ':' tag ++ marked '@' digest ∧ Name (lowercase name) ∧
    (∀ part ∈ tag, Tag part) ∧ ∀ part ∈ digest, Digest part

/-- A text is as it should be in lowercase, and behind its name there is a Kelvin sign. -/
def KelvinBehindName (cs : List Char) : Prop :=
  ∃ name tag digest, cs = name ++ marked ':' tag ++ marked '@' digest ∧ Name (lowercase name) ∧
    (∀ part ∈ tag, Tag (lowercase part)) ∧ (∀ part ∈ digest, Digest (lowercase part)) ∧
    kelvinSign ∈ marked ':' tag ++ marked '@' digest

theorem isSome_ofText?_iff : (Parts.ofText? cs).isSome = true ↔ InLanguage cs := by
  rw [Option.isSome_iff_exists]
  constructor
  · rintro ⟨parts, hparts⟩
    obtain ⟨hforms, rfl⟩ := Parts.ofText?_eq_some_iff.1 hparts
    exact ⟨parts.name, parts.tag, parts.digest, hforms.spells⟩
  · rintro ⟨name, tag, digest, hspells⟩
    obtain ⟨parts, hforms, htext, -⟩ := exists_parts_of_spells hspells
    exact ⟨parts, Parts.ofText?_eq_some_iff.2 ⟨hforms, htext⟩⟩

/-! ## Characters -/

theorem ascii_of_utf8Size {c : Char} (h : c.utf8Size = 1) : c.toNat < 0x80 :=
  Nat.lt_succ_of_le (UInt32.le_iff_toNat_le.1 (Char.utf8Size_eq_one_iff.1 h))

theorem ascii_of_name (h : Name name) : ∀ c ∈ name, c.toNat < 0x80 := by
  intro c hc
  obtain ⟨split, hsplit⟩ := exists_splitName?_iff.2 h
  rcases mem_of_splitName? hsplit hc with hclass | hclass | rfl
  · exact ascii_of_utf8Size (utf8Size_of_isDomainChar hclass)
  · exact ascii_of_utf8Size (utf8Size_of_isComponentChar hclass)
  · decide

theorem ascii_of_isTag (h : isTag cs = true) : ∀ c ∈ cs, c.toNat < 0x80 := by
  intro c hc
  have hclass := List.all_eq_true.1 (isTag_all h) c hc
  simp only [isTagChar, Bool.or_eq_true, decide_eq_true_eq] at hclass
  rcases hclass with ((hclass | rfl) | rfl) | rfl
  · exact ascii_of_isAlphanum hclass
  all_goals decide

theorem ascii_of_isDigestText (h : isDigestText cs = true) : ∀ c ∈ cs, c.toNat < 0x80 := by
  intro c hc
  have hclass := List.all_eq_true.1 (isDigestText_all h) c hc
  simp only [isDigestChar, Bool.or_eq_true, decide_eq_true_eq] at hclass
  rcases hclass with ((((hclass | rfl) | rfl) | rfl) | rfl) | rfl
  · exact ascii_of_isAlphanum hclass
  all_goals decide

theorem ascii_of_marked {mark : Char} {part : Option (List Char)} (hmark : mark.toNat < 0x80)
    (hpart : ∀ cs ∈ part, ∀ c ∈ cs, c.toNat < 0x80) : ∀ c ∈ marked mark part, c.toNat < 0x80 := by
  cases part with
  | none => exact nofun
  | some cs => exact List.forall_mem_cons.2 ⟨hmark, hpart cs rfl⟩

/-- The language is one of ASCII texts. -/
theorem ascii_of_inLanguage (h : InLanguage cs) : ∀ c ∈ cs, c.toNat < 0x80 := by
  obtain ⟨name, tag, digest, hname, htag, hdigest⟩ := h
  refine List.forall_mem_append.2 ⟨List.forall_mem_append.2 ⟨ascii_of_name hname, ?_⟩, ?_⟩
  · exact ascii_of_marked (by decide) fun part hpart =>
      ascii_of_isTag (isTag_iff.2 (htag part hpart))
  · exact ascii_of_marked (by decide) fun part hpart =>
      ascii_of_isDigestText (isDigestText_iff.2 (hdigest part hpart))

/-- Texts that are the same but for the form of a sigma: `ς` stands in the second for some of the
`σ` in the first. -/
def SameButFinalSigma : List Char → List Char → Prop :=
  List.Forall₂ fun c d => c = d ∨ (c = '\u03C3' ∧ d = '\u03C2')

theorem SameButFinalSigma.eq_of_ascii {ds : List Char} (h : SameButFinalSigma cs ds)
    (hascii : (∀ c ∈ cs, c.toNat < 0x80) ∨ ∀ d ∈ ds, d.toNat < 0x80) : cs = ds := by
  induction h with
  | nil => rfl
  | cons hsame _ ih =>
    rw [List.forall_mem_cons, List.forall_mem_cons] at hascii
    have hrest := ih (hascii.imp And.right And.right)
    rcases hsame with rfl | ⟨rfl, rfl⟩
    · rw [hrest]
    · rcases hascii with ⟨hsigma, -⟩ | ⟨hsigma, -⟩ <;> exact absurd hsigma (by decide)

/-- **The form of a final sigma** makes no difference to what is in the language. -/
theorem inLanguage_iff_of_finalSigma {ds : List Char} (h : SameButFinalSigma cs ds) :
    InLanguage cs ↔ InLanguage ds := by
  constructor
  · intro hcs
    rwa [← h.eq_of_ascii (Or.inl (ascii_of_inLanguage hcs))]
  · intro hds
    rwa [h.eq_of_ascii (Or.inr (ascii_of_inLanguage hds))]

/-! ## Where a text is cut -/

/-- A text is cut into a name, a tag and a digest by the marks in it, whatever their forms. -/
structure Cut (name : List Char) (tag digest : Option (List Char)) (cs : List Char) : Prop where
  text : cs = name ++ marked ':' tag ++ marked '@' digest
  named : '@' ∉ name ++ marked ':' tag
  split : splitTag (name ++ marked ':' tag) = (name, tag)

theorem exists_cut (cs : List Char) : ∃ name tag digest, Cut name tag digest cs := by
  obtain ⟨named, digest, hnamed, rfl⟩ := exists_marked '@' cs
  have hsplit : (splitTag named).1 ++ marked ':' (splitTag named).2 = named := splitTag_eq rfl
  refine ⟨(splitTag named).1, (splitTag named).2, digest, ?_, ?_, ?_⟩
  · rw [hsplit]
  · rw [hsplit]
    exact hnamed
  · rw [hsplit]

theorem Cut.unique {name' : List Char} {tag' digest' : Option (List Char)}
    (h : Cut name tag digest cs) (h' : Cut name' tag' digest' cs) :
    name' = name ∧ tag' = tag ∧ digest' = digest := by
  obtain ⟨hnamed, hdigest⟩ := (append_marked_inj h'.named h.named).1 (h'.text.symm.trans h.text)
  have hsplit := h'.split
  rw [hnamed, h.split] at hsplit
  obtain ⟨hname, htag⟩ := Prod.mk.inj hsplit
  exact ⟨hname.symm, htag.symm, hdigest⟩

/-- No mark in a name is taken for the one before a tag or a digest. -/
structure Uncut (name : List Char) : Prop where
  at_not_mem : '@' ∉ name
  split : splitTag name = (name, none)

theorem uncut_of_name (h : Name name) : Uncut name := by
  obtain ⟨split, hsplit⟩ := exists_splitName?_iff.2 h
  refine ⟨fun hmem => absurd (mem_of_splitName? hsplit hmem) (by decide), ?_⟩
  have hmarked : splitTag (name ++ marked ':' none) = (name, none) := splitTag_name hsplit nofun
  rw [marked_none, List.append_nil] at hmarked
  exact hmarked

theorem splitTag_of_uncut (h : splitTag name = (name, none)) (htag : ∀ part ∈ tag, '/' ∉ part) :
    splitTag (name ++ marked ':' tag) = (name, tag) := by
  induction name with
  | nil => exact splitTag_marked List.not_mem_nil htag
  | cons c name ih =>
    unfold splitTag at h
    split at h
    · cases h
    · next hc =>
      obtain ⟨hname, hnone⟩ := Prod.mk.inj h
      have hrest := ih (Prod.ext (List.cons.inj hname).2 hnone)
      -- A colon that a slash follows in the name is followed by it in the whole text.
      have hcolon : ¬ (c = ':' ∧ '/' ∉ name ++ marked ':' tag) := fun hc' =>
        hc ⟨hc'.1, fun hmem => hc'.2 (List.mem_append_left _ hmem)⟩
      rw [List.cons_append, splitTag, if_neg hcolon, hrest]

/-- A name with a tag and a digest behind it is cut before them. -/
theorem cut_of_uncut (h : Uncut name) (htag : ∀ part ∈ tag, '@' ∉ part ∧ '/' ∉ part) :
    Cut name tag digest (name ++ marked ':' tag ++ marked '@' digest) := by
  refine ⟨rfl, ?_, splitTag_of_uncut h.split fun part hpart => (htag part hpart).2⟩
  rw [List.mem_append]
  rintro (hmem | hmem)
  · exact h.at_not_mem hmem
  · cases tag with
    | none => cases hmem
    | some part =>
      rcases List.mem_cons.1 hmem with hcolon | hmem
      · exact absurd hcolon (by decide)
      · exact (htag part rfl).1 hmem

/-- **What a text is put together of** are the parts that it is cut into, if their forms keep the
marks apart. -/
theorem Cut.exists_iff {Forms : List Char → Option (List Char) → Option (List Char) → Prop}
    (h : Cut name tag digest cs)
    (hforms : ∀ {name tag digest}, Forms name tag digest →
      Uncut name ∧ ∀ part ∈ tag, '@' ∉ part ∧ '/' ∉ part) :
    (∃ name tag digest, cs = name ++ marked ':' tag ++ marked '@' digest ∧
        Forms name tag digest) ↔ Forms name tag digest := by
  constructor
  · rintro ⟨name', tag', digest', htext, hall⟩
    obtain ⟨huncut, htag⟩ := hforms hall
    have hcut : Cut name' tag' digest' cs := htext ▸ cut_of_uncut huncut htag
    obtain ⟨rfl, rfl, rfl⟩ := h.unique hcut
    exact hall
  · intro hall
    exact ⟨name, tag, digest, h.text, hall⟩

/-! ## The marks in lowercase -/

theorem lowercase_marked {mark : Char} (hmark : IsMark mark) (part : Option (List Char)) :
    lowercase (marked mark part) = marked mark (part.map lowercase) := by
  cases part with
  | none => rfl
  | some part => exact Text.lowercase_mark_cons hmark part

/-- The colon before a tag is the same one in lowercase. -/
theorem splitTag_lowercase (cs : List Char) :
    splitTag (lowercase cs) = (lowercase (splitTag cs).1, (splitTag cs).2.map lowercase) := by
  have hcolon := Text.isMark_colon
  have hslash := Text.isMark_slash
  induction cs with
  | nil => rfl
  | cons c cs ih =>
    by_cases hc : c = ':'
    · subst hc
      rw [Text.lowercase_mark_cons hcolon, splitTag, splitTag]
      by_cases hmem : '/' ∈ cs
      · have hlower : '/' ∈ lowercase cs := (Text.mem_lowercase_iff hslash).2 hmem
        simp [hmem, hlower, ih, Text.lowercaseChar_mark hcolon]
      · have hlower : '/' ∉ lowercase cs := fun h => hmem ((Text.mem_lowercase_iff hslash).1 h)
        simp [hmem, hlower]
    · -- The form of another character goes into the name as it is.
      have hform : ':' ∉ Text.lowercaseChar c := fun hmem =>
        hc ((Text.mem_lowercaseChar_iff hcolon).1 hmem)
      rw [Text.lowercase_cons, splitTag_append hform, ih, splitTag,
        if_neg fun hboth => hc hboth.1]
      rfl

/-- **The parts of a text in lowercase** are its parts in lowercase. -/
theorem Cut.map_lowercase (h : Cut name tag digest cs) :
    Cut (lowercase name) (tag.map lowercase) (digest.map lowercase) (lowercase cs) := by
  have hcolon := Text.isMark_colon
  have hat := Text.isMark_at
  have hnamed : lowercase name ++ marked ':' (tag.map lowercase) =
      lowercase (name ++ marked ':' tag) := by
    rw [Text.lowercase_append, lowercase_marked hcolon]
  refine ⟨?_, ?_, ?_⟩
  · rw [hnamed, ← lowercase_marked hat, ← Text.lowercase_append, ← h.text]
  · rw [hnamed, Text.mem_lowercase_iff hat]
    exact h.named
  · rw [hnamed, splitTag_lowercase, h.split]

theorem uncut_of_lowercase (h : Uncut (lowercase name)) : Uncut name := by
  obtain ⟨hat, hsplit⟩ := h
  rw [Text.mem_lowercase_iff Text.isMark_at] at hat
  rw [splitTag_lowercase] at hsplit
  have hnone : (splitTag name).2 = none := Option.map_eq_none_iff.1 (Prod.mk.inj hsplit).2
  have hname : (splitTag name).1 ++ marked ':' (splitTag name).2 = name := splitTag_eq rfl
  rw [hnone, marked_none, List.append_nil] at hname
  exact ⟨hat, Prod.ext hname hnone⟩

/-! ## Tags and digests in lowercase -/

theorem isAlpha_toLower (c : Char) : c.toLower.isAlpha = c.isAlpha := by
  change (c.toLower.isUpper || c.toLower.isLower) = (c.isUpper || c.isLower)
  rw [Bool.eq_iff_iff, Bool.or_eq_true, Bool.or_eq_true, isUpper_iff, isUpper_iff, isLower_iff,
    isLower_iff]
  rcases Text.toLower_cases c with ⟨hcapital, hlower⟩ | ⟨-, hlower⟩
  · omega
  · rw [hlower]

theorem isDigit_toLower (c : Char) : c.toLower.isDigit = c.isDigit := by
  rw [Bool.eq_iff_iff, isDigit_iff, isDigit_iff]
  rcases Text.toLower_cases c with ⟨hcapital, hlower⟩ | ⟨-, hlower⟩
  · omega
  · rw [hlower]

theorem isAlphanum_toLower (c : Char) : c.toLower.isAlphanum = c.isAlphanum := by
  change (c.toLower.isAlpha || c.toLower.isDigit) = (c.isAlpha || c.isDigit)
  rw [isAlpha_toLower, isDigit_toLower]

theorem isHexDigit_toLower (c : Char) : isHexDigit c.toLower = isHexDigit c := by
  rw [Bool.eq_iff_iff, isHexDigit_iff_toNat, isHexDigit_iff_toNat, isDigit_iff, isDigit_iff]
  rcases Text.toLower_cases c with ⟨hcapital, hlower⟩ | ⟨-, hlower⟩
  · omega
  · rw [hlower]

theorem decide_toLower_eq (mark : Char) (hmark : IsMark mark) (c : Char) :
    decide (c.toLower = mark) = decide (c = mark) :=
  decide_eq_decide.2 (Text.toLower_eq_mark_iff hmark)

theorem isTag_lowercase (h : ∀ c ∈ cs, c.toNat < 0x80) : isTag (lowercase cs) = isTag cs := by
  have hunderscore := decide_toLower_eq '_' (by decide)
  have hperiod := decide_toLower_eq '.' (by decide)
  have hhyphen := decide_toLower_eq '-' (by decide)
  rw [Text.lowercase_of_ascii h]
  cases cs with
  | nil => rfl
  | cons c cs =>
    simp only [List.map_cons, isTag, List.length_map, List.all_map, Function.comp_def,
      isAlphanum_toLower, hunderscore, hperiod, hhyphen]

theorem continuesAlgorithm_map_toLower (fresh : Bool) (cs : List Char) :
    continuesAlgorithm fresh (cs.map Char.toLower) = continuesAlgorithm fresh cs := by
  have hhyphen := decide_toLower_eq '-' (by decide)
  have hunderscore := decide_toLower_eq '_' (by decide)
  have hplus := decide_toLower_eq '+' (by decide)
  have hperiod := decide_toLower_eq '.' (by decide)
  induction cs generalizing fresh with
  | nil => rfl
  | cons c cs ih =>
    simp only [List.map_cons, continuesAlgorithm, ih, isAlpha_toLower, isDigit_toLower, hhyphen,
      hunderscore, hplus, hperiod]

theorem isDigestText_lowercase (h : ∀ c ∈ cs, c.toNat < 0x80) :
    isDigestText (lowercase cs) = isDigestText cs := by
  unfold isDigestText
  rw [Text.cut?_lowercase Text.isMark_colon]
  cases hcut : Text.cut? ':' cs with
  | none => rfl
  | some parts =>
    obtain ⟨algorithm, hex⟩ := parts
    obtain ⟨-, rfl⟩ := Text.cut?_eq_some_iff.1 hcut
    have halgorithm : lowercase algorithm = algorithm.map Char.toLower :=
      Text.lowercase_of_ascii fun c hc => h c (List.mem_append_left _ hc)
    have hhex : lowercase hex = hex.map Char.toLower :=
      Text.lowercase_of_ascii fun c hc => h c (List.mem_append_right _ (List.mem_cons_of_mem _ hc))
    simp only [Option.map_some, halgorithm, hhex, continuesAlgorithm_map_toLower, List.length_map,
      List.all_map, Function.comp_def, isHexDigit_toLower]

/-- A form of ASCII texts that does not depend on case is kept in lowercase, and what has it in
lowercase had it before, unless it holds a Kelvin sign. -/
theorem form_iff_lowercase {form? : List Char → Bool}
    (hascii : ∀ {cs}, form? cs = true → ∀ c ∈ cs, c.toNat < 0x80)
    (hcase : ∀ {cs}, (∀ c ∈ cs, c.toNat < 0x80) → form? (lowercase cs) = form? cs) :
    form? cs = true ↔ form? (lowercase cs) = true ∧ kelvinSign ∉ cs := by
  constructor
  · intro h
    refine ⟨(hcase (hascii h)).trans h, fun hmem => ?_⟩
    exact absurd (hascii h kelvinSign hmem) (by decide)
  · rintro ⟨h, hkelvin⟩
    rw [hcase (Text.ascii_of_lowercase (hascii h) hkelvin)] at h
    exact h

/-- **A tag in lowercase** was a tag, unless it held a Kelvin sign. -/
theorem tag_iff_lowercase : Tag cs ↔ Tag (lowercase cs) ∧ kelvinSign ∉ cs := by
  rw [← isTag_iff, ← isTag_iff]
  exact form_iff_lowercase ascii_of_isTag isTag_lowercase

/-- **A digest in lowercase** was a digest, unless it held a Kelvin sign. -/
theorem digest_iff_lowercase : Digest cs ↔ Digest (lowercase cs) ∧ kelvinSign ∉ cs := by
  rw [← isDigestText_iff, ← isDigestText_iff]
  exact form_iff_lowercase ascii_of_isDigestText isDigestText_lowercase

/-- The part behind a mark, if there is one, in lowercase. -/
theorem forall_part_iff_lowercase (Form : List Char → Prop) (mark : Char)
    (part : Option (List Char)) (hmark : IsMark mark)
    (hform : ∀ cs, Form cs ↔ Form (lowercase cs) ∧ kelvinSign ∉ cs) :
    (∀ cs ∈ part, Form cs) ↔
      (∀ cs ∈ part, Form (lowercase cs)) ∧ kelvinSign ∉ marked mark part := by
  have hne : kelvinSign ≠ mark := by
    rintro rfl
    exact absurd hmark (by decide)
  cases part with
  | none => simp
  | some cs => simp [hform cs, hne]

/-! ## The cases -/

theorem marks_not_mem_of_tag (h : Tag cs) : '@' ∉ cs ∧ '/' ∉ cs := by
  have hclass := isTag_all (isTag_iff.2 h)
  exact ⟨Text.not_mem_of_all hclass rfl, Text.not_mem_of_all hclass rfl⟩

theorem marks_not_mem_of_lowercase_tag (h : Tag (lowercase cs)) : '@' ∉ cs ∧ '/' ∉ cs := by
  obtain ⟨hat, hslash⟩ := marks_not_mem_of_tag h
  rw [Text.mem_lowercase_iff Text.isMark_at] at hat
  rw [Text.mem_lowercase_iff Text.isMark_slash] at hslash
  exact ⟨hat, hslash⟩

theorem spells_iff : Spells name tag digest cs ↔
    cs = name ++ marked ':' tag ++ marked '@' digest ∧ Name name ∧ (∀ part ∈ tag, Tag part) ∧
      ∀ part ∈ digest, Digest part := by
  constructor
  · rintro ⟨hname, htag, hdigest⟩
    exact ⟨rfl, hname, htag, hdigest⟩
  · rintro ⟨rfl, hname, htag, hdigest⟩
    exact .mk hname htag hdigest

namespace Cut

variable (h : Cut name tag digest cs)

include h

theorem inLanguage_iff : InLanguage cs ↔
    Name name ∧ (∀ part ∈ tag, Tag part) ∧ ∀ part ∈ digest, Digest part := by
  simp only [InLanguage, spells_iff]
  apply h.exists_iff
  rintro name tag digest ⟨hname, htag, -⟩
  exact ⟨uncut_of_name hname, fun part hpart => marks_not_mem_of_tag (htag part hpart)⟩

theorem inLanguage_lowercase_iff : InLanguage (lowercase cs) ↔
    Name (lowercase name) ∧ (∀ part ∈ tag, Tag (lowercase part)) ∧
      ∀ part ∈ digest, Digest (lowercase part) := by
  rw [h.map_lowercase.inLanguage_iff]
  simp

theorem nameAtFault_iff : NameAtFault cs ↔
    Name (lowercase name) ∧ (∀ part ∈ tag, Tag part) ∧ ∀ part ∈ digest, Digest part := by
  apply h.exists_iff
  rintro name tag digest ⟨hname, htag, -⟩
  exact ⟨uncut_of_lowercase (uncut_of_name hname),
    fun part hpart => marks_not_mem_of_tag (htag part hpart)⟩

theorem kelvinBehindName_iff : KelvinBehindName cs ↔
    Name (lowercase name) ∧ (∀ part ∈ tag, Tag (lowercase part)) ∧
      (∀ part ∈ digest, Digest (lowercase part)) ∧
      kelvinSign ∈ marked ':' tag ++ marked '@' digest := by
  apply h.exists_iff
  rintro name tag digest ⟨hname, htag, -⟩
  exact ⟨uncut_of_lowercase (uncut_of_name hname),
    fun part hpart => marks_not_mem_of_lowercase_tag (htag part hpart)⟩

end Cut

/-- The name is at fault if the lowercase form is in the language, and no Kelvin sign is behind the
name. -/
theorem nameAtFault_iff_lowercase :
    NameAtFault cs ↔ InLanguage (lowercase cs) ∧ ¬ KelvinBehindName cs := by
  obtain ⟨name, tag, digest, hcut⟩ := exists_cut cs
  rw [hcut.nameAtFault_iff, hcut.inLanguage_lowercase_iff, hcut.kelvinBehindName_iff,
    forall_part_iff_lowercase Tag ':' tag Text.isMark_colon fun _ => tag_iff_lowercase,
    forall_part_iff_lowercase Digest '@' digest Text.isMark_at fun _ => digest_iff_lowercase,
    List.mem_append]
  constructor
  · -- A tag and a digest that are well-formed as they stand hold no Kelvin sign.
    rintro ⟨hname, ⟨htag, hkelvin⟩, hdigest, hkelvin'⟩
    refine ⟨⟨hname, htag, hdigest⟩, ?_⟩
    rintro ⟨-, -, -, hmem | hmem⟩
    · exact hkelvin hmem
    · exact hkelvin' hmem
  · rintro ⟨⟨hname, htag, hdigest⟩, hkelvin⟩
    refine ⟨hname, ⟨htag, fun hmem => ?_⟩, hdigest, fun hmem => ?_⟩
    · exact hkelvin ⟨hname, htag, hdigest, Or.inl hmem⟩
    · exact hkelvin ⟨hname, htag, hdigest, Or.inr hmem⟩

theorem inLanguage_lowercase_of_kelvinBehindName (h : KelvinBehindName cs) :
    InLanguage (lowercase cs) := by
  obtain ⟨name, tag, digest, hcut⟩ := exists_cut cs
  obtain ⟨hname, htag, hdigest, -⟩ := hcut.kelvinBehindName_iff.1 h
  exact hcut.inLanguage_lowercase_iff.2 ⟨hname, htag, hdigest⟩

theorem parse_of_not_inLanguage (h : ¬ InLanguage text.toList) :
    (parse text = .error (.containsUppercase text) ↔ InLanguage (lowercase text.toList)) ∧
      (parse text = .error (.invalidFormat text) ↔
        text ≠ "" ∧ ¬ InLanguage (lowercase text.toList)) := by
  rw [← isSome_ofText?_iff, Option.not_isSome_iff_eq_none] at h
  rw [← isSome_ofText?_iff]
  unfold parse
  by_cases hempty : text = ""
  · subst hempty
    exact ⟨iff_of_false nofun nofun, iff_of_false nofun fun hne => hne.1 rfl⟩
  · have hne : ¬ text.isEmpty = true := fun hnil => hempty (String.isEmpty_iff.1 hnil)
    rw [if_neg hne, h]
    dsimp only
    split
    · next hsome => exact ⟨iff_of_true rfl hsome, iff_of_false nofun fun hnone => hnone.2 hsome⟩
    · next hnone => exact ⟨iff_of_false nofun hnone, iff_of_true rfl ⟨hempty, hnone⟩⟩

/-- **When the name is blamed.** A text outside the language is refused for the capital letters of
its name exactly if it is a name but for the case of its letters, with a tag and a digest behind it
that are well-formed as they stand; or else if it is one after a Kelvin sign in the tag or the
digest has become a `k`. These two never meet, so the Kelvin sign alone decides whether the refusal
is right; and a text with a well-formed name is refused so for no other fault behind it. -/
theorem parse_containsUppercase_iff (h : ¬ InLanguage text.toList) :
    (parse text = .error (.containsUppercase text) ↔
        NameAtFault text.toList ∨ KelvinBehindName text.toList) ∧
      ((parse text = .error (.containsUppercase text) ↔ NameAtFault text.toList) ↔
        ¬ KelvinBehindName text.toList) ∧
      (parse text = .error (.invalidFormat text) ↔
        text ≠ "" ∧ ¬ NameAtFault text.toList ∧ ¬ KelvinBehindName text.toList) ∧
      ∀ name tag digest, text.toList = name ++ marked ':' tag ++ marked '@' digest → Name name →
        (∀ part ∈ tag, '@' ∉ part ∧ '/' ∉ part) →
        (parse text = .error (.containsUppercase text) ↔ KelvinBehindName text.toList) := by
  obtain ⟨huppercase, hinvalid⟩ := parse_of_not_inLanguage h
  have hcases : InLanguage (lowercase text.toList) ↔
      NameAtFault text.toList ∨ KelvinBehindName text.toList := by
    rw [nameAtFault_iff_lowercase]
    constructor
    · intro hlower
      by_cases hkelvin : KelvinBehindName text.toList
      · exact Or.inr hkelvin
      · exact Or.inl ⟨hlower, hkelvin⟩
    · rintro (⟨hlower, -⟩ | hkelvin)
      · exact hlower
      · exact inLanguage_lowercase_of_kelvinBehindName hkelvin
  rw [huppercase, hinvalid, hcases, not_or]
  refine ⟨Iff.rfl, ⟨?_, ?_⟩, Iff.rfl, ?_⟩
  · intro hiff hkelvin
    exact (nameAtFault_iff_lowercase.1 (hiff.1 (Or.inr hkelvin))).2 hkelvin
  · exact or_iff_left
  · -- The marks cut the text behind its well-formed name, so that no longer one can be at fault.
    intro name tag digest htext hname htag
    have hcut : Cut name tag digest text.toList :=
      htext ▸ cut_of_uncut (uncut_of_name hname) htag
    refine or_iff_right fun hfault => h ?_
    obtain ⟨-, htags, hdigests⟩ := hcut.nameAtFault_iff.1 hfault
    exact hcut.inLanguage_iff.2 ⟨hname, htags, hdigests⟩

/-- Capital letters in the path are the fault of the name. -/
theorem parse_containsUppercase_path :
    ¬ InLanguage "docker.io/BusyBox:V1".toList ∧
      parse "docker.io/BusyBox:V1" = .error (.containsUppercase "docker.io/BusyBox:V1") ∧
      NameAtFault "docker.io/BusyBox:V1".toList := by
  have h : ¬ InLanguage "docker.io/BusyBox:V1".toList := by
    rw [← isSome_ofText?_iff]
    decide
  have hparse : parse "docker.io/BusyBox:V1" =
      .error (.containsUppercase "docker.io/BusyBox:V1") := by rfl
  refine ⟨h, hparse, ?_⟩
  rcases (parse_containsUppercase_iff h).1.1 hparse with hname | hkelvin
  · exact hname
  · obtain ⟨name, tag, digest, htext, -, -, -, hmem⟩ := hkelvin
    have hsign : kelvinSign ∈ "docker.io/BusyBox:V1".toList := by
      rw [htext, List.append_assoc]
      exact List.mem_append_right name hmem
    exact absurd hsign (by decide)

/-- A Kelvin sign in the tag is blamed on the name, which is in lowercase. -/
theorem parse_containsUppercase_kelvin_tag :
    ¬ InLanguage "app:\u212A".toList ∧
      parse "app:\u212A" = .error (.containsUppercase "app:\u212A") ∧
      ¬ NameAtFault "app:\u212A".toList := by
  have hcut : Cut "app".toList (some [kelvinSign]) none "app:\u212A".toList :=
    ⟨rfl, by decide, rfl⟩
  have htag : ¬ Tag [kelvinSign] := by
    rw [← isTag_iff]
    decide
  refine ⟨?_, rfl, ?_⟩
  · rw [hcut.inLanguage_iff]
    rintro ⟨-, htags, -⟩
    exact htag (htags _ rfl)
  · rw [hcut.nameAtFault_iff]
    rintro ⟨-, htags, -⟩
    exact htag (htags _ rfl)

end WorkloadImages.Reference

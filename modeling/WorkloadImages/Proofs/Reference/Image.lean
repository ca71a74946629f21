import WorkloadImages.Proofs.Reference.Domain
import WorkloadImages.Proofs.Reference.Parse
import WorkloadImages.Reference.Image

/-!
# Reading images

An image is read off the parts of a reference with its domain ensured. The segment before the
first slash of that reference is the domain of the parts, or it begins their path.

## Main results

* `parseAt_eq_ok_iff`: what is read as an image, and as which one
* `exists_path_of_text`: where the first segment of a reference goes
* `parseAt_of_looksLikeDomain`: parts with a domain are read back from their text
-/

namespace WorkloadImages

open Reference
open Text (not_mem_of_all)

variable {parts : Parts} {segment rest : List Char} {text pointer : String} {image : Image}

namespace Reference.Parts

theorem WellFormed.slash_not_mem_suffix (h : parts.WellFormed) :
    '/' ∉ marked ':' parts.tag ++ marked '@' parts.digest := by
  rw [List.mem_append]
  rintro (hmem | hmem)
  · cases htag : parts.tag with
    | none => simp [htag] at hmem
    | some tag =>
      rw [htag, marked_some, List.mem_cons] at hmem
      rcases hmem with hmem | hmem
      · exact absurd hmem (by decide)
      · exact h.not_mem_tag rfl tag htag hmem
  · cases hdigest : parts.digest with
    | none => simp [hdigest] at hmem
    | some digest =>
      rw [hdigest, marked_some, List.mem_cons] at hmem
      rcases hmem with hmem | hmem
      · exact absurd hmem (by decide)
      · exact not_mem_of_all (isDigestText_all (h.digest digest hdigest)) rfl hmem

/-- **The segment before the first slash** is the domain if it can be one. Else it is a component,
there is no domain, and the whole name is the path. -/
theorem WellFormed.exists_path_of_text (h : parts.WellFormed) (hslash : '/' ∉ segment)
    (htext : parts.text = segment ++ '/' :: rest) :
    ∃ path, parts.name = segment ++ '/' :: path ∧ isPath path = true ∧
      path ++ (marked ':' parts.tag ++ marked '@' parts.digest) = rest ∧
      ((isDomain segment = true ∧ parts.domain = segment ∧ parts.path = path) ∨
        (isDomain segment = false ∧ isComponent segment = true ∧ parts.domain = [] ∧
          parts.path = parts.name)) := by
  rw [text, List.append_assoc] at htext
  rcases exists_of_splitName? h.splitName?_eq with
    ⟨hname, -, -⟩ | ⟨first, path, hfirst, hname, hpath, hcases⟩
  · have hmem : '/' ∈ parts.name ++ (marked ':' parts.tag ++ marked '@' parts.digest) := by
      rw [htext]
      simp
    rcases List.mem_append.1 hmem with hmem | hmem
    · exact absurd hmem hname
    · exact absurd hmem h.slash_not_mem_suffix
  · rw [hname, List.append_assoc, List.cons_append] at htext
    have hcut : Text.cut? '/' (segment ++ '/' :: rest) = some (segment, rest) :=
      Text.cut?_append hslash
    rw [← htext, Text.cut?_append hfirst] at hcut
    obtain ⟨rfl, hrest⟩ := Prod.mk.inj (Option.some.inj hcut)
    refine ⟨path, hname, hpath, hrest, ?_⟩
    rcases hcases with ⟨hdomain, hsplit⟩ | ⟨hdomain, hcomponent, hsplit⟩
    · obtain ⟨hd, hp⟩ := Prod.mk.inj hsplit
      exact Or.inl ⟨hdomain, hd, hp⟩
    · obtain ⟨hd, hp⟩ := Prod.mk.inj hsplit
      exact Or.inr ⟨hdomain, hcomponent, hd, hp⟩

/-- A name with a domain is the domain and the path. -/
theorem WellFormed.name_eq (h : parts.WellFormed) (hdomain : parts.domain ≠ []) :
    '/' ∉ parts.domain ∧ parts.name = parts.domain ++ '/' :: parts.path := by
  rcases exists_of_splitName? h.splitName?_eq with
    ⟨-, -, hsplit⟩ | ⟨first, path, hfirst, hname, -, hcases⟩
  · exact absurd (Prod.mk.inj hsplit).1 hdomain
  · rcases hcases with ⟨-, hsplit⟩ | ⟨-, -, hsplit⟩
    · obtain ⟨hd, hp⟩ := Prod.mk.inj hsplit
      rw [hd, hp]
      exact ⟨hfirst, hname⟩
    · exact absurd (Prod.mk.inj hsplit).1 hdomain

end Reference.Parts

namespace Image

/-- **A text is read as an image exactly if it is, with its domain ensured, the text of parts that
have their forms and keep to the limits.** -/
theorem parseAt_eq_ok_iff :
    parseAt text pointer = .ok image ↔
      ∃ parts : Parts, parts.WellFormed ∧ parts.WithinLimits ∧
        parts.text = (ensureDomain text).toList ∧
        image = ofReference parts.toReference pointer := by
  unfold parseAt
  constructor
  · intro h
    cases hparse : Reference.parse (ensureDomain text) with
    | error cause => rw [hparse] at h; cases h
    | ok reference =>
      rw [hparse] at h
      obtain ⟨parts, hforms, hlimits, htext, rfl⟩ := Reference.parse_eq_ok_iff.1 hparse
      exact ⟨parts, hforms, hlimits, htext, (Except.ok.inj h).symm⟩
  · rintro ⟨parts, hforms, hlimits, htext, rfl⟩
    rw [Reference.parse_eq_ok_iff.2 ⟨parts, hforms, hlimits, htext, rfl⟩]
    rfl

/-- Parts whose domain looks like one are read back from their text. -/
theorem parseAt_of_looksLikeDomain (pointer : String) (hforms : parts.WellFormed)
    (hlimits : parts.WithinLimits)
    (hdomain : parts.domain ≠ []) (hlooks : looksLikeDomain parts.domain = true)
    (htext : text.toList = parts.text) :
    ensureDomain text = text ∧
      parseAt text pointer = .ok (ofReference parts.toReference pointer) := by
  obtain ⟨hslash, hname⟩ := hforms.name_eq hdomain
  have hsegment : text.toList =
      parts.domain ++ '/' :: (parts.path ++ marked ':' parts.tag ++ marked '@' parts.digest) := by
    rw [htext, Parts.text, hname]
    simp
  have hensured : ensureDomain text = text := ensureDomain_of_segment hslash hlooks hsegment
  refine ⟨hensured, parseAt_eq_ok_iff.2 ⟨parts, hforms, hlimits, ?_, rfl⟩⟩
  rw [hensured, htext]

end Image

end WorkloadImages

import WorkloadImages.Proofs.Reference.RoundTrip

/-!
# The texts of different images

An image has its canonical text for itself: another image with that text has the same registry, path
and digest, and the same tag if it is not given by digest. Its tagged text tells the tag as well.
None of this needs the texts to be read back, which fails where there is no registry. The marks
between the parts are found by the characters that the parts leave out.

## Main results

* `Parts.address_injective`: the text of parts as an image tells the parts
* `canonical_and_tagged_inj`: which images have the same texts
-/

namespace WorkloadImages

open Reference
open Text (not_mem_of_all)

variable {parts others : Parts} {text text' pointer pointer' : String} {image image' : Image}

/-! ## Parts -/

namespace Reference.Parts

theorem WellFormed.slash_not_mem_domain (h : parts.WellFormed) : '/' ∉ parts.domain := by
  rcases exists_of_splitName? h.splitName?_eq with
    ⟨-, -, hsplit⟩ | ⟨first, path, hfirst, -, -, hcases⟩
  · rw [(Prod.mk.inj hsplit).1]
    exact List.not_mem_nil
  · rcases hcases with ⟨-, hsplit⟩ | ⟨-, -, hsplit⟩
    · rw [(Prod.mk.inj hsplit).1]
      exact hfirst
    · rw [(Prod.mk.inj hsplit).1]
      exact List.not_mem_nil

/-- The path consists of components, whether or not it is the whole name. -/
theorem WellFormed.isPath (h : parts.WellFormed) : isPath parts.path = true := by
  rcases exists_of_splitName? h.splitName?_eq with
    ⟨hslash, hcomponent, hsplit⟩ | ⟨first, path, hfirst, hname, hpath, hcases⟩
  · rw [(Prod.mk.inj hsplit).2]
    simpa [Reference.isPath, Text.pieces_of_not_mem hslash] using hcomponent
  · rcases hcases with ⟨-, hsplit⟩ | ⟨-, hcomponent, hsplit⟩
    · rw [(Prod.mk.inj hsplit).2]
      exact hpath
    · rw [(Prod.mk.inj hsplit).2, hname, isPath_append hfirst, hcomponent, hpath]
      rfl

theorem WellFormed.colon_not_mem_path (h : parts.WellFormed) : ':' ∉ parts.path := by
  intro hmem
  exact absurd (mem_isPath h.isPath hmem) (by decide)

theorem WellFormed.at_not_mem_path_tag (h : parts.WellFormed) :
    '@' ∉ parts.path ++ marked ':' parts.tag := by
  intro hmem
  rcases List.mem_append.1 hmem with hmem | hmem
  · exact absurd (mem_isPath h.isPath hmem) (by decide)
  · exact h.at_not_mem_marked_tag hmem

/-- **The text of parts as an image** tells the parts: the first slash ends the registry, the first
at sign begins the digest, and the first colon between them begins the tag. -/
theorem address_injective (h : parts.WellFormed) (h' : others.WellFormed)
    (heq : parts.address = others.address) :
    parts.domain = others.domain ∧ parts.path = others.path ∧ parts.tag = others.tag ∧
      parts.digest = others.digest := by
  obtain ⟨hdomain, hrest⟩ :=
    (Text.append_sep_inj h.slash_not_mem_domain h'.slash_not_mem_domain).1 heq
  obtain ⟨hnamed, hdigest⟩ :=
    (append_marked_inj h.at_not_mem_path_tag h'.at_not_mem_path_tag).1 hrest
  obtain ⟨hpath, htag⟩ := (append_marked_inj h.colon_not_mem_path h'.colon_not_mem_path).1 hnamed
  exact ⟨hdomain, hpath, htag, hdigest⟩

end Reference.Parts

/-! ## Images -/

namespace Image

theorem hasDigest_eq_false_iff : image.hasDigest = false ↔ image.digest = "" := by
  simp [hasDigest]

/-- An image that was read has parts. -/
theorem exists_parts_of_parseAt (h : parseAt text pointer = .ok image) :
    ∃ parts : Parts, parts.WellFormed ∧ image = ofReference parts.toReference pointer := by
  obtain ⟨parts, hforms, -, -, himage⟩ := parseAt_eq_ok_iff.1 h
  exact ⟨parts, hforms, himage⟩

theorem canonical_congr (hregistry : image.registry = image'.registry)
    (hpath : image.path = image'.path) (hdigest : image.digest = image'.digest)
    (htag : image.digest = "" → image'.digest = "" → image.tag = image'.tag) :
    image.canonical = image'.canonical := by
  unfold canonical hasDigest
  rw [hregistry, hpath, hdigest]
  split
  · rfl
  · next hempty =>
    have hempty : image'.digest = "" := by simpa using hempty
    rw [htag (hdigest.trans hempty) hempty]

theorem tagged_congr (hregistry : image.registry = image'.registry)
    (hpath : image.path = image'.path) (htag : image.tag = image'.tag)
    (hdigest : image.digest = image'.digest) : image.tagged = image'.tagged := by
  have hcanonical := canonical_congr hregistry hpath hdigest fun _ _ => htag
  unfold tagged hasDigest
  rw [hregistry, hpath, htag, hdigest, hcanonical]

/-- Images with one canonical text differ in the tag at most, and only beside a digest. -/
theorem eq_of_canonical_eq (h : parseAt text pointer = .ok image)
    (h' : parseAt text' pointer' = .ok image') (heq : image.canonical = image'.canonical) :
    image.registry = image'.registry ∧ image.path = image'.path ∧
      image.digest = image'.digest ∧ (image.digest = "" → image.tag = image'.tag) := by
  obtain ⟨parts, hforms, rfl⟩ := exists_parts_of_parseAt h
  obtain ⟨others, hothers, rfl⟩ := exists_parts_of_parseAt h'
  have haddress := congrArg String.toList heq
  rw [toList_canonical hforms, toList_canonical hothers] at haddress
  obtain ⟨hdomain, hpath, htag, hdigest⟩ := Parts.address_injective
    (hforms.withTag hforms.canonicalTag) (hothers.withTag hothers.canonicalTag) haddress
  change parts.digest = others.digest at hdigest
  refine ⟨congrArg String.ofList hdomain, congrArg String.ofList hpath, ?_, ?_⟩
  · rw [digest_ofReference, digest_ofReference, hdigest]
  · intro hempty
    -- Without a digest the canonical text has the tag that the image has.
    rw [← hasDigest_eq_false_iff, hasDigest_ofReference hforms] at hempty
    have hfilled : parts.filledTag = others.filledTag := by
      simpa [Parts.withTag, Parts.canonicalTag, ← hdigest, hempty] using htag
    rw [tag_ofReference, tag_ofReference, hfilled]

/-- Images with one tagged text differ in nothing that they say. -/
theorem eq_of_tagged_eq (h : parseAt text pointer = .ok image)
    (h' : parseAt text' pointer' = .ok image') (heq : image.tagged = image'.tagged) :
    image.registry = image'.registry ∧ image.path = image'.path ∧ image.tag = image'.tag ∧
      image.digest = image'.digest := by
  obtain ⟨parts, hforms, rfl⟩ := exists_parts_of_parseAt h
  obtain ⟨others, hothers, rfl⟩ := exists_parts_of_parseAt h'
  have haddress := congrArg String.toList heq
  rw [toList_tagged hforms, toList_tagged hothers] at haddress
  obtain ⟨hdomain, hpath, htag, hdigest⟩ := Parts.address_injective
    (hforms.withTag hforms.filledTag) (hothers.withTag hothers.filledTag) haddress
  change parts.filledTag = others.filledTag at htag
  change parts.digest = others.digest at hdigest
  refine ⟨congrArg String.ofList hdomain, congrArg String.ofList hpath, ?_, ?_⟩
  · rw [tag_ofReference, tag_ofReference, htag]
  · rw [digest_ofReference, digest_ofReference, hdigest]

/-- **The texts of an image are its identity.** Two accepted references have one canonical text
exactly if they agree in registry, path and digest and, where there is no digest, in the tag; they
have one tagged text exactly if they agree in all four. An image given by tag never has the
canonical text of one given by digest. -/
theorem canonical_and_tagged_inj (h : parse text = .ok image) (h' : parse text' = .ok image') :
    (image.canonical = image'.canonical ↔
        image.registry = image'.registry ∧ image.path = image'.path ∧
          image.digest = image'.digest ∧
          (image.digest = "" → image'.digest = "" → image.tag = image'.tag)) ∧
      (image.tagged = image'.tagged ↔
        image.registry = image'.registry ∧ image.path = image'.path ∧ image.tag = image'.tag ∧
          image.digest = image'.digest) ∧
      (image.digest = "" → image'.digest ≠ "" → image.canonical ≠ image'.canonical) := by
  refine ⟨⟨?_, ?_⟩, ⟨eq_of_tagged_eq h h', ?_⟩, ?_⟩
  · intro heq
    obtain ⟨hregistry, hpath, hdigest, htag⟩ := eq_of_canonical_eq h h' heq
    exact ⟨hregistry, hpath, hdigest, fun hempty _ => htag hempty⟩
  · rintro ⟨hregistry, hpath, hdigest, htag⟩
    exact canonical_congr hregistry hpath hdigest htag
  · rintro ⟨hregistry, hpath, htag, hdigest⟩
    exact tagged_congr hregistry hpath htag hdigest
  · intro hempty hgiven heq
    obtain ⟨-, -, hdigest, -⟩ := eq_of_canonical_eq h h' heq
    exact hgiven (hdigest.symm.trans hempty)

/-- Without a registry too the canonical text drops the tag beside a digest, and only the tagged
texts differ. -/
theorem canonical_and_tagged_inj_without_registry :
    let digest := "sha256:" ++ String.ofList (List.replicate 64 'f')
    let tagged : Image := ⟨"", "d", "a_b.c/d", "v1", digest, ""⟩
    let untagged : Image := ⟨"", "d", "a_b.c/d", "", digest, ""⟩
    parse ("a_b.c/d:v1@" ++ digest) = .ok tagged ∧ parse ("a_b.c/d@" ++ digest) = .ok untagged ∧
      tagged.canonical = untagged.canonical ∧ tagged.tagged ≠ untagged.tagged := by
  have h : parse ("a_b.c/d:v1@" ++ ("sha256:" ++ String.ofList (List.replicate 64 'f'))) =
      .ok ⟨"", "d", "a_b.c/d", "v1", "sha256:" ++ String.ofList (List.replicate 64 'f'), ""⟩ := by
    rfl
  have h' : parse ("a_b.c/d@" ++ ("sha256:" ++ String.ofList (List.replicate 64 'f'))) =
      .ok ⟨"", "d", "a_b.c/d", "", "sha256:" ++ String.ofList (List.replicate 64 'f'), ""⟩ := by
    rfl
  obtain ⟨hcanonical, htagged, -⟩ := canonical_and_tagged_inj h h'
  refine ⟨h, h', hcanonical.2 ⟨rfl, rfl, rfl, ?_⟩, ?_⟩
  · intro hempty
    simp at hempty
  · intro heq
    obtain ⟨-, -, htag, -⟩ := htagged.1 heq
    simp at htag

end Image

end WorkloadImages

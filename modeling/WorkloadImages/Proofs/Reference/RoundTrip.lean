import WorkloadImages.Proofs.Reference.Registry

/-!
# Reading images back

An image with a registry is read back from its canonical text and from its tagged text. The two
differ in the tag only: both are the texts of the parts that the image was read from, with another
tag put in.

## Main definitions

* `Parts.withTag`: parts with another tag
* `Parts.address`: the text of parts as an image
* `Image.withoutDroppedTag`: the image that a canonical text tells

## Main results

* `toList_canonical`, `toList_tagged`: the two texts of an image, by its parts
* `parseAt_canonical`, `parseAt_tagged`: an image with a registry is read back
-/

namespace WorkloadImages

open Reference

variable {parts : Parts} {text pointer : String} {image : Image}

/-! ## Parts with another tag -/

namespace Reference.Parts

/-- The parts with another tag. -/
def withTag (parts : Parts) (tag : Option (List Char)) : Parts := { parts with tag := tag }

/-- The tag of an image with the parts: a tag is filled in where there is neither tag nor digest. -/
def filledTag (parts : Parts) : Option (List Char) :=
  if parts.digest.isSome then parts.tag else some (parts.tag.getD Image.defaultTag.toList)

/-- The tag in the canonical text: none beside a digest. -/
def canonicalTag (parts : Parts) : Option (List Char) :=
  if parts.digest.isSome then none else parts.filledTag

/-- The text that parts have as an image: a slash stands behind the registry, be there one or
not. -/
def address (parts : Parts) : List Char :=
  parts.domain ++ '/' :: (parts.path ++ marked ':' parts.tag ++ marked '@' parts.digest)

theorem address_withTag (parts : Parts) (tag : Option (List Char)) :
    (parts.withTag tag).address =
      parts.domain ++ '/' :: (parts.path ++ marked ':' tag ++ marked '@' parts.digest) := rfl

/-- With a registry that is the text that the parts are read from. -/
theorem WellFormed.address_eq_text (h : parts.WellFormed) (hdomain : parts.domain ≠ []) :
    parts.address = parts.text := by
  obtain ⟨-, hname⟩ := h.name_eq hdomain
  rw [address, text, hname]
  simp

theorem WellFormed.withTag {tag : Option (List Char)} (h : parts.WellFormed)
    (htag : ∀ cs ∈ tag, isTag cs = true) :
    (parts.withTag tag).WellFormed :=
  ⟨h.name, htag, h.digest⟩

theorem WithinLimits.withTag {tag : Option (List Char)} (h : parts.WithinLimits) :
    (parts.withTag tag).WithinLimits :=
  ⟨h.name, h.digest⟩

theorem WellFormed.filledTag (h : parts.WellFormed) :
    ∀ cs ∈ parts.filledTag, isTag cs = true := by
  intro cs hcs
  unfold Parts.filledTag at hcs
  split at hcs
  · exact h.tag cs hcs
  · obtain rfl := Option.some.inj hcs
    cases htag : parts.tag with
    | none => decide
    | some tag => exact h.tag tag htag

theorem WellFormed.canonicalTag (h : parts.WellFormed) :
    ∀ cs ∈ parts.canonicalTag, isTag cs = true := by
  intro cs hcs
  unfold Parts.canonicalTag at hcs
  split at hcs
  · cases hcs
  · exact h.filledTag cs hcs

end Reference.Parts

/-! ## The texts of an image -/

namespace Image

/-- The image that its canonical text tells: without the tag, if it is given by digest. -/
def withoutDroppedTag (image : Image) : Image :=
  { image with tag := if image.hasDigest then "" else image.tag }

theorem hasDigest_ofReference (h : parts.WellFormed) :
    (ofReference parts.toReference pointer).hasDigest = parts.digest.isSome := by
  unfold hasDigest ofReference Parts.toReference
  cases hdigest : parts.digest with
  | none => rfl
  | some digest =>
    have hne : digest ≠ [] := by
      rintro rfl
      exact absurd (h.digest [] hdigest) (by decide)
    simpa using hne

theorem tag_ofReference (parts : Parts) (pointer : String) :
    (ofReference parts.toReference pointer).tag = String.ofList (parts.filledTag.getD []) := by
  unfold ofReference Parts.toReference Parts.filledTag
  cases parts.tag <;> cases parts.digest <;> simp

theorem digest_ofReference (parts : Parts) (pointer : String) :
    (ofReference parts.toReference pointer).digest = String.ofList (parts.digest.getD []) := by
  unfold ofReference Parts.toReference
  cases parts.digest <;> rfl

theorem toList_canonical (h : parts.WellFormed) :
    (ofReference parts.toReference pointer).canonical.toList =
      (parts.withTag parts.canonicalTag).address := by
  rw [Parts.address_withTag, canonical, Parts.canonicalTag, hasDigest_ofReference h,
    tag_ofReference, digest_ofReference]
  cases hdigest : parts.digest with
  | none => simp [ofReference, Parts.toReference, Parts.filledTag, hdigest]
  | some digest => simp [ofReference, Parts.toReference]

theorem toList_tagged (h : parts.WellFormed) :
    (ofReference parts.toReference pointer).tagged.toList =
      (parts.withTag parts.filledTag).address := by
  unfold tagged
  rw [hasDigest_ofReference h]
  cases hdigest : parts.digest with
  | none => simpa [Parts.canonicalTag, hdigest] using toList_canonical h
  | some digest =>
    rw [tag_ofReference, digest_ofReference]
    cases htag : parts.tag with
    | none =>
      simpa [Parts.canonicalTag, Parts.filledTag, hdigest, htag] using toList_canonical h
    | some tag =>
      have hne : tag ≠ [] := by
        rintro rfl
        exact absurd (h.tag [] htag) (by decide)
      simp [ofReference, Parts.toReference, Parts.address_withTag, Parts.filledTag, hdigest, htag,
        hne]

/-! ## Reading back -/

theorem canonical_withoutDroppedTag (image : Image) :
    image.withoutDroppedTag.canonical = image.canonical := by
  unfold canonical withoutDroppedTag hasDigest
  split <;> simp_all

/-- What is read as an image with a registry has parts that are read back from their texts. -/
theorem exists_parts_of_registry (h : parseAt text pointer = .ok image)
    (hregistry : image.registry ≠ "") :
    ∃ parts : Parts, parts.WellFormed ∧ parts.WithinLimits ∧ parts.domain ≠ [] ∧
      looksLikeDomain parts.domain = true ∧ image = ofReference parts.toReference pointer := by
  obtain ⟨parts, hforms, hlimits, htext, rfl⟩ := parseAt_eq_ok_iff.1 h
  have hdomain : parts.domain ≠ [] := by
    intro hnil
    exact hregistry (by rw [ofReference, Parts.toReference, hnil])
  refine ⟨parts, hforms, hlimits, hdomain, ?_, rfl⟩
  obtain ⟨segment, rest, hslash, hlooks, hensured⟩ := exists_segment_ensureDomain text
  obtain ⟨path, -, -, -, hcases⟩ := hforms.exists_path_of_text hslash (htext.trans hensured)
  rcases hcases with ⟨-, hsegment, -⟩ | ⟨-, -, hnil, -⟩
  · -- The domain is the first segment, and that one looks like a domain.
    rw [hsegment]
    exact hlooks
  · exact absurd hnil hdomain

theorem pointer_of_parseAt (h : parseAt text pointer = .ok image) : image.pointer = pointer := by
  obtain ⟨parts, -, -, -, rfl⟩ := parseAt_eq_ok_iff.1 h
  rfl

theorem ofReference_withTag (parts : Parts) (tag : Option (List Char)) (pointer place : String) :
    ofReference (parts.withTag tag).toReference place =
      { ofReference parts.toReference pointer with
        tag := String.ofList ((parts.withTag tag).filledTag.getD [])
        pointer := place } := by
  rw [← tag_ofReference _ place]
  rfl

/-- **The canonical text** of an image with a registry is left alone when the default registry is
filled in, and tells the image without a tag beside a digest. -/
theorem parseAt_canonical (h : parseAt text pointer = .ok image) (hregistry : image.registry ≠ "")
    (place : String) :
    ensureDomain image.canonical = image.canonical ∧
      parseAt image.canonical place = .ok { image.withoutDroppedTag with pointer := place } := by
  obtain ⟨parts, hforms, hlimits, hdomain, hlooks, rfl⟩ := exists_parts_of_registry h hregistry
  obtain ⟨hensured, hparse⟩ := parseAt_of_looksLikeDomain place
    (hforms.withTag hforms.canonicalTag) hlimits.withTag hdomain hlooks
    ((toList_canonical hforms).trans
      ((hforms.withTag hforms.canonicalTag).address_eq_text hdomain))
  refine ⟨hensured, hparse.trans (congrArg Except.ok ?_)⟩
  -- The image of the parts with the other tag differs in the tag only.
  rw [ofReference_withTag parts _ pointer, withoutDroppedTag, hasDigest_ofReference hforms,
    tag_ofReference]
  cases hdigest : parts.digest <;>
    simp [Parts.withTag, Parts.canonicalTag, Parts.filledTag, hdigest]

/-- A text that begins with a slash is not read: the path behind the default domain would begin with
an empty segment. -/
theorem parseAt_ne_ok_of_slash {rest : List Char} (htext : text.toList = '/' :: rest)
    (place : String) : parseAt text place ≠ .ok image := by
  intro h
  obtain ⟨parts, hforms, -, hparts, -⟩ := parseAt_eq_ok_iff.1 h
  have hnames : namesDomain ('/' :: rest) = false := namesDomain_append List.not_mem_nil
  have hensured : ensureDomain text = defaultDomain ++ "/" ++ text := by
    rw [ensureDomain, htext, hnames]
    rfl
  rw [hensured, toList_defaultDomain_append, htext] at hparts
  obtain ⟨path, -, hpath, hsuffix, -⟩ := hforms.exists_path_of_text (by decide) hparts
  -- What follows the default domain begins with the second slash, so no path can be read there.
  cases path with
  | nil => exact absurd hpath (by decide)
  | cons c path =>
    obtain ⟨rfl, -⟩ := List.cons.inj hsuffix
    have hempty : isPath ('/' :: path) = false := isPath_append List.not_mem_nil
    rw [hempty] at hpath
    cases hpath

/-- The canonical text of an image without a registry is not read back. -/
theorem parseAt_canonical_ne_ok {again : Image} (hregistry : image.registry = "")
    (place : String) : parseAt image.canonical place ≠ .ok again := by
  have htext : ∃ rest, image.canonical.toList = '/' :: rest := by
    unfold canonical
    split <;> simp [hregistry]
  obtain ⟨rest, htext⟩ := htext
  exact parseAt_ne_ok_of_slash htext place

/-- **The tagged text** of an image with a registry is left alone when the default registry is
filled in, and tells the whole image. -/
theorem parseAt_tagged (h : parseAt text pointer = .ok image) (hregistry : image.registry ≠ "")
    (place : String) :
    ensureDomain image.tagged = image.tagged ∧
      parseAt image.tagged place = .ok { image with pointer := place } := by
  obtain ⟨parts, hforms, hlimits, hdomain, hlooks, rfl⟩ := exists_parts_of_registry h hregistry
  obtain ⟨hensured, hparse⟩ := parseAt_of_looksLikeDomain place
    (hforms.withTag hforms.filledTag) hlimits.withTag hdomain hlooks
    ((toList_tagged hforms).trans
      ((hforms.withTag hforms.filledTag).address_eq_text hdomain))
  refine ⟨hensured, hparse.trans (congrArg Except.ok ?_)⟩
  rw [ofReference_withTag parts _ pointer]
  have htag := tag_ofReference parts pointer
  cases hdigest : parts.digest <;> simp_all [Parts.withTag, Parts.filledTag]

/-- The name of an accepted image keeps to the limit in bytes. -/
theorem byteLength_name_le (h : parseAt text pointer = .ok image)
    (hregistry : image.registry ≠ "") :
    Text.byteLength (image.registry ++ "/" ++ image.path).toList ≤
      ReferenceError.maxNameLength := by
  obtain ⟨parts, hforms, hlimits, hdomain, -, rfl⟩ := exists_parts_of_registry h hregistry
  obtain ⟨-, hname⟩ := hforms.name_eq hdomain
  have htext : ((ofReference parts.toReference pointer).registry ++ "/" ++
      (ofReference parts.toReference pointer).path).toList = parts.name := by
    simp [ofReference, Parts.toReference, hname]
  rw [htext, hforms.byteLength_name]
  exact hlimits.name

/-- **Both texts of an image with a registry are read back.** The canonical text gives the image
without a tag beside a digest, and has itself as its canonical text; the tagged text gives the whole
image. Nothing is put before either, and the name that both begin with keeps to its limit. -/
theorem parse_canonical_and_tagged (h : parse text = .ok image) (hregistry : image.registry ≠ "") :
    (∃ again, parse image.canonical = .ok again ∧ again.registry = image.registry ∧
        again.path = image.path ∧ again.name = image.name ∧ again.digest = image.digest ∧
        again.tag = (if image.digest = "" then image.tag else "") ∧
        again.canonical = image.canonical) ∧
      parse image.tagged = .ok image ∧
      ensureDomain image.canonical = image.canonical ∧
      ensureDomain image.tagged = image.tagged ∧
      Text.byteLength (image.registry ++ "/" ++ image.path).toList ≤
        ReferenceError.maxNameLength := by
  obtain ⟨hcanonical, hparse⟩ := parseAt_canonical h hregistry ""
  obtain ⟨htagged, hback⟩ := parseAt_tagged h hregistry ""
  -- The image has been read without a place, which is the place it is read back with.
  have hplace : { image with pointer := "" } = image := by rw [← pointer_of_parseAt h]
  rw [hplace] at hback
  refine ⟨⟨_, hparse, rfl, rfl, rfl, rfl, ?_, canonical_withoutDroppedTag image⟩, hback, hcanonical,
    htagged, byteLength_name_le h hregistry⟩
  by_cases hdigest : image.digest = "" <;> simp [withoutDroppedTag, hasDigest, hdigest]

/-- A host in capital letters with a port, and a tag beside a digest. -/
theorem parse_canonical_and_tagged_port :
    let digest := "sha256:" ++ String.ofList (List.replicate 64 'f')
    let image : Image := ⟨"REG:5000", "c", "a_b/c", "v1", digest, ""⟩
    parse ("REG:5000/a_b/c:v1@" ++ digest) = .ok image ∧ image.registry ≠ "" ∧
      parse image.tagged = .ok image ∧
      ∃ again, parse image.canonical = .ok again ∧ again.registry = "REG:5000" ∧
        again.path = "a_b/c" ∧ again.digest = digest ∧ again.tag = "" := by
  have h : parse ("REG:5000/a_b/c:v1@" ++
      ("sha256:" ++ String.ofList (List.replicate 64 'f'))) =
        .ok ⟨"REG:5000", "c", "a_b/c", "v1",
          "sha256:" ++ String.ofList (List.replicate 64 'f'), ""⟩ := by
    rfl
  have hregistry : "REG:5000" ≠ "" := by decide
  obtain ⟨⟨again, hparse, hagain, hpath, -, hdigest, htag, -⟩, hback, -⟩ :=
    parse_canonical_and_tagged h hregistry
  exact ⟨h, hregistry, hback, again, hparse, hagain, hpath, hdigest, htag⟩

end Image

end WorkloadImages

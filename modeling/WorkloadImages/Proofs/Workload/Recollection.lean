import WorkloadImages.Proofs.Workload.Idempotence
import WorkloadImages.Proofs.Workload.Verdicts

/-!
# Collecting from a rewritten document

The images of a document that has been rewritten are those that were collected before, if each of
them has a registry; only the tag of an image given by digest is gone. Every container that was
rejected is rejected again, for the same cause and in the same place.

## Main definitions

* `Registered`: each image that is kept from a list has a registry

## Main results

* `lastAt?_canonicalItems`, `rejections_canonicalItems`: a rewritten list
* `collectDocument_canonicalize`: a rewritten document
-/

namespace WorkloadImages

variable {items : List Json} {document : Json} {path : List String} {kind name : String}
  {image : Image} {index : Nat}

theorem Image.withoutDroppedTag_eq (image : Image) :
    image.withoutDroppedTag =
      { image with tag := if image.digest = "" then image.tag else "" } := by
  by_cases hdigest : image.digest = "" <;> simp [withoutDroppedTag, hasDigest, hdigest]

/-! ## Lists -/

/-- Each image that is kept from a list has a registry. -/
def Registered (items : List Json) : Prop :=
  ∀ index name image, lastAt? items index = some (name, image) → image.registry ≠ ""

/-- The last accepted entry with each name stays the last one. -/
theorem lastAt?_canonicalItems (h : Registered items) (index : Nat) :
    lastAt? (canonicalItems items) index =
      (lastAt? items index).map fun entry => (entry.1, entry.2.withoutDroppedTag) := by
  refine Option.ext fun entry => ?_
  obtain ⟨name, image⟩ := entry
  rw [lastAt?_canonicalItems_eq_some_iff]
  constructor
  · rintro (⟨found, hlast, -, rfl⟩ | ⟨last, found, hlast, hregistry, -⟩)
    · rw [hlast]
      rfl
    · exact absurd hregistry (h last name found hlast)
  · intro hentry
    obtain ⟨⟨name', found⟩, hlast, hsame⟩ := Option.map_eq_some_iff.1 hentry
    obtain ⟨rfl, rfl⟩ := Prod.mk.inj hsame
    exact Or.inl ⟨found, hlast, h index name' found hlast, rfl⟩

theorem rejection?_verdicts_of_last (path : List String)
    (h : lastAt? items index = some (name, image)) :
    (verdicts path items)[index]?.map Verdict.rejection? = some none := by
  have haccepted : (verdicts path items)[index]? =
      some (.accepted name { image with pointer := imagePointer path index }) :=
    getElem?_verdicts_eq_accepted_iff.2 ⟨image, (lastAt?_eq_some_iff.1 h).1, rfl⟩
  rw [haccepted]
  rfl

/-- What is reported of an entry does not change: a rewritten entry is accepted before and after,
and the others are as they were. -/
theorem rejection?_verdicts_canonicalItems (path : List String) (h : Registered items)
    (index : Nat) :
    (verdicts path (canonicalItems items))[index]?.map Verdict.rejection? =
      (verdicts path items)[index]?.map Verdict.rejection? := by
  cases hlast : lastAt? items index with
  | none =>
    rw [getElem?_verdicts, getElem?_verdicts, getElem?_canonicalItems_of_not_last hlast]
  | some entry =>
    obtain ⟨name, image⟩ := entry
    have hagain : lastAt? (canonicalItems items) index = some (name, image.withoutDroppedTag) := by
      rw [lastAt?_canonicalItems h, hlast]
      rfl
    rw [rejection?_verdicts_of_last path hlast, rejection?_verdicts_of_last path hagain]

theorem rejections_canonicalItems (path : List String) (h : Registered items) :
    (verdicts path (canonicalItems items)).filterMap Verdict.rejection? =
      (verdicts path items).filterMap Verdict.rejection? := by
  have hreported : (verdicts path (canonicalItems items)).map Verdict.rejection? =
      (verdicts path items).map Verdict.rejection? := by
    refine List.ext_getElem? fun index => ?_
    rw [List.getElem?_map, List.getElem?_map]
    exact rejection?_verdicts_canonicalItems path h index
  have hid : ∀ judged : List Verdict, judged.filterMap Verdict.rejection? =
      (judged.map Verdict.rejection?).filterMap id := by
    intro judged
    rw [List.filterMap_map]
    rfl
  rw [hid, hreported, ← hid]

/-! ## Documents -/

theorem kindOf_canonicalDocument (document : Json) (kind : String) :
    Workload.kindOf (canonicalDocument document kind) = Workload.kindOf document := by
  rw [Workload.kindOf, Workload.kindOf?, field?_canonicalDocument (by decide)]
  rfl

/-- An image is kept exactly if it is that of a last entry, so all that are kept have a registry
exactly if all lists are registered. -/
theorem registered_iff :
    (∀ list, Registered (containersOf document kind list)) ↔
      ∀ list name image, ((collect document kind).inventory.list list).get? name = some image →
        image.registry ≠ "" := by
  refine forall_congr' fun list => ⟨?_, ?_⟩
  · intro h name image hkept
    obtain ⟨index, found, hlast, rfl⟩ := get?_collect_iff.1 hkept
    exact h index name found hlast
  · intro h index name image hlast
    have hregistry := h name _ (get?_collect_iff.2 ⟨index, image, hlast, rfl⟩)
    exact hregistry

theorem get?_collect_canonicalDocument (h : ∀ list, Registered (containersOf document kind list))
    (list : ContainerList) (name : String) :
    ((collect (canonicalDocument document kind) kind).inventory.list list).get? name =
      (((collect document kind).inventory.list list).get? name).map Image.withoutDroppedTag := by
  refine Option.ext fun image => ?_
  rw [get?_collect_iff, containersOf_canonicalDocument, Option.map_eq_some_iff]
  simp only [lastAt?_canonicalItems (h list), Option.map_eq_some_iff, get?_collect_iff]
  constructor
  · rintro ⟨index, found, ⟨⟨name', old⟩, hlast, hsame⟩, rfl⟩
    obtain ⟨rfl, rfl⟩ := Prod.mk.inj hsame
    exact ⟨_, ⟨index, old, hlast, rfl⟩, rfl⟩
  · rintro ⟨kept, ⟨index, found, hlast, rfl⟩, rfl⟩
    exact ⟨index, found.withoutDroppedTag, ⟨(name, found), hlast, rfl⟩, rfl⟩

theorem rejections_collect_canonicalDocument
    (h : ∀ list, Registered (containersOf document kind list)) :
    (collect (canonicalDocument document kind) kind).rejections =
      (collect document kind).rejections := by
  rw [rejections_collect, rejections_collect]
  refine congrArg ContainerList.all.flatMap (funext fun list => ?_)
  rw [verdictsOf, containersOf_canonicalDocument]
  exact rejections_canonicalItems _ (h list)

/-- **Collecting from a rewritten document** gives what was collected before, if each image that
was has a registry: the same rejections, and under each name the same image, but for the tag of an
image that is given by digest. -/
theorem collectDocument_canonicalize (document : Json)
    (h : ∀ list name image,
      ((collectDocument document).inventory.list list).get? name = some image →
        image.registry ≠ "") :
    ∃ rewritten, canonicalize document = .ok rewritten ∧
      (collectDocument rewritten).rejections = (collectDocument document).rejections ∧
      ∀ list name, ((collectDocument rewritten).inventory.list list).get? name =
        (((collectDocument document).inventory.list list).get? name).map fun image =>
          { image with tag := if image.digest = "" then image.tag else "" } := by
  have hregistered := registered_iff.2 h
  refine ⟨_, canonicalize_eq document, ?_, ?_⟩
  · rw [collectDocument, kindOf_canonicalDocument]
    exact rejections_collect_canonicalDocument hregistered
  · intro list name
    simp only [← Image.withoutDroppedTag_eq]
    rw [collectDocument, kindOf_canonicalDocument]
    exact get?_collect_canonicalDocument hregistered list name

/-- A pod whose containers are rewritten, overridden, rejected and passed over. -/
def podOfAllSorts : Json :=
  .obj [("kind", .str "Pod"), ("spec", .obj [("containers", .arr
    [.obj [("image", .str "a_b.c/d"), ("name", .str "x")],
      .null,
      .obj [("image", .str "nginx")],
      .obj [("image", .str "host:80/Repo"), ("name", .str "y")],
      .obj [("image", .str "nginx"), ("name", .str "x")],
      .obj [("image", .str ("host:80/app:v1@sha256:" ++ String.ofList (List.replicate 64 'f'))),
        ("name", .str "y")]])])]

theorem collectDocument_canonicalize_podOfAllSorts :
    ∃ rewritten, canonicalize podOfAllSorts = .ok rewritten ∧
      (collectDocument rewritten).rejections =
        [.container "/spec/containers/2" (.missing "name"),
          .image "/spec/containers/3/image" "host:80/Repo" (.containsUppercase "host:80/Repo")] ∧
      ((collectDocument rewritten).inventory.list .main).get? "x" =
        some ⟨"docker.io", "nginx", "nginx", "latest", "", "/spec/containers/4/image"⟩ ∧
      (((collectDocument rewritten).inventory.list .main).get? "y").map (·.tag) = some "" := by
  have hentries : ∀ list,
      ∀ entry ∈ ((collectDocument podOfAllSorts).inventory.list list).entries,
        entry.2.registry ≠ "" := by
    intro list
    cases list <;> decide +kernel
  have hregistry : ∀ list name image,
      ((collectDocument podOfAllSorts).inventory.list list).get? name = some image →
        image.registry ≠ "" :=
    fun list _ _ hkept => hentries list _ ((Dict.mem_entries_iff _).2 hkept)
  obtain ⟨rewritten, hrewritten, hrejections, hkept⟩ :=
    collectDocument_canonicalize podOfAllSorts hregistry
  refine ⟨rewritten, hrewritten, ?_, ?_, ?_⟩
  · rw [hrejections]
    rfl
  · rw [hkept]
    rfl
  · rw [hkept]
    rfl

end WorkloadImages

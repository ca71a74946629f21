import WorkloadImages.Proofs.Workload.Canonical

/-!
# Writing images in full twice

When images in full are written to a document that has them already, the canonical texts are read
again. The text of an image with a registry gives the same text. The text of an image without one
is not read: the entry is rejected now, and the accepted entry before it with its name, if there is
one, is the last of them.

## Main definitions

* `Settled`: an entry that comes to be the last with its name has its image in full already
* `canonicalize`: a document after its images have been collected and written back

## Main results

* `canonicalItems_canonicalItems_iff`: when a list stays as it is the second time
* `canonicalize_canonicalize_iff`: when a document does
-/

namespace WorkloadImages

variable {items : List Json} {item document : Json} {path : List String} {name : String}
  {image other : Image} {index last : Nat} {list : ContainerList}

/-! ## Entries -/

/-- A rewritten entry has its name and gives its image again, if the image has a registry; else it
is rejected. -/
theorem container?_writeImage (h : container? item = some (name, image)) :
    container? (item.writeImage image.canonical) =
      if image.registry = "" then none else some (name, image.withoutDroppedTag) := by
  obtain ⟨hname, text, htext, hparse⟩ := container?_eq_some_iff.1 h
  have himage : (item.writeImage image.canonical).field? "image" = some (.str image.canonical) := by
    rw [Json.writeImage, Json.field?_modifyField_self, htext]
    rfl
  split
  · next hregistry =>
    -- The canonical text begins with a slash, and nothing is read from it.
    rw [Option.eq_none_iff_forall_ne_some]
    rintro ⟨again, found⟩ hagain
    obtain ⟨-, text', htext', hfound⟩ := container?_eq_some_iff.1 hagain
    rw [himage] at htext'
    obtain rfl := Json.str.inj (Option.some.inj htext')
    exact Image.parseAt_canonical_ne_ok hregistry _ hfound
  · next hregistry =>
    obtain ⟨-, hagain⟩ := Image.parseAt_canonical hparse hregistry (Pointer.encode ["image"])
    have hplace : { image.withoutDroppedTag with pointer := Pointer.encode ["image"] } =
        image.withoutDroppedTag := by
      rw [← Image.pointer_of_parseAt hparse]
      rfl
    rw [hplace] at hagain
    refine container?_eq_some_iff.2 ⟨?_, image.canonical, himage, hagain⟩
    rw [Json.writeImage, Json.field?_modifyField_of_ne (by decide), hname]

/-! ## Lists -/

/-- The image of the entry at an index as it stands there. -/
def imageAt? (items : List Json) (index : Nat) : Option Json :=
  items[index]?.bind (Json.field? "image")

theorem getElem?_canonicalItems_of_last (h : lastAt? items index = some (name, image)) :
    (canonicalItems items)[index]? = items[index]?.map (Json.writeImage image.canonical) := by
  rw [canonicalItems, Json.getElem?_withImages, canonicalText?, h]
  rfl

theorem getElem?_canonicalItems_of_not_last (h : lastAt? items index = none) :
    (canonicalItems items)[index]? = items[index]? := by
  rw [canonicalItems, Json.getElem?_withImages, canonicalText?, h]
  cases items[index]? <;> rfl

theorem containerAt?_canonicalItems_of_last (h : lastAt? items index = some (name, image)) :
    containerAt? (canonicalItems items) index =
      if image.registry = "" then none else some (name, image.withoutDroppedTag) := by
  obtain ⟨hcontainer, -⟩ := lastAt?_eq_some_iff.1 h
  obtain ⟨item, hitem, hentry⟩ := Option.bind_eq_some_iff.1 hcontainer
  rw [containerAt?, getElem?_canonicalItems_of_last h, hitem]
  exact container?_writeImage hentry

theorem containerAt?_canonicalItems_of_not_last (h : lastAt? items index = none) :
    containerAt? (canonicalItems items) index = containerAt? items index := by
  rw [containerAt?, getElem?_canonicalItems_of_not_last h]
  rfl

theorem imageAt?_canonicalItems_of_last (h : lastAt? items index = some (name, image)) :
    imageAt? (canonicalItems items) index = some (.str image.canonical) := by
  obtain ⟨hcontainer, -⟩ := lastAt?_eq_some_iff.1 h
  obtain ⟨item, hitem, hentry⟩ := Option.bind_eq_some_iff.1 hcontainer
  obtain ⟨-, text, htext, -⟩ := container?_eq_some_iff.1 hentry
  rw [imageAt?, getElem?_canonicalItems_of_last h, hitem, Option.map_some, Option.bind_some,
    Json.writeImage, Json.field?_modifyField_self, htext]
  rfl

theorem imageAt?_canonicalItems_of_not_last (h : lastAt? items index = none) :
    imageAt? (canonicalItems items) index = imageAt? items index := by
  rw [imageAt?, getElem?_canonicalItems_of_not_last h]
  rfl

/-- Nothing is changed exactly if all images that are to be written in full are so already. -/
theorem canonicalItems_eq_self_iff :
    canonicalItems items = items ↔ ∀ index name image, lastAt? items index = some (name, image) →
      imageAt? items index = some (.str image.canonical) := by
  constructor
  · intro h index name image hlast
    rw [← imageAt?_canonicalItems_of_last hlast, h]
  · intro h
    refine List.ext_getElem? fun index => ?_
    cases hlast : lastAt? items index with
    | none => exact getElem?_canonicalItems_of_not_last hlast
    | some entry =>
      obtain ⟨name, image⟩ := entry
      obtain ⟨item, hitem, himage⟩ := Option.bind_eq_some_iff.1 (h index name image hlast)
      rw [getElem?_canonicalItems_of_last hlast, hitem, Option.map_some]
      refine congrArg some ((Json.modifyField_eq_self_iff ..).2 fun inner hinner => ?_)
      exact Option.some.inj (himage.symm.trans hinner)

/-! ## The last entry with a name, the second time -/

theorem lastAt?_eq_none_of_lt (hlast : lastAt? items last = some (name, image))
    (hindex : containerAt? items index = some (name, other)) (hlt : index < last) :
    lastAt? items index = none := by
  rw [Option.eq_none_iff_forall_ne_some]
  rintro ⟨name', found⟩ hfound
  obtain ⟨hcontainer, hlater⟩ := lastAt?_eq_some_iff.1 hfound
  obtain ⟨rfl, -⟩ := Prod.mk.inj (Option.some.inj (hindex.symm.trans hcontainer))
  exact hlater last hlt image (lastAt?_eq_some_iff.1 hlast).1

theorem index_eq_of_lastAt? (hlast : lastAt? items last = some (name, image))
    (hindex : lastAt? items index = some (name, other)) : index = last := by
  obtain ⟨hcontainer, hlater⟩ := lastAt?_eq_some_iff.1 hlast
  obtain ⟨hcontainer', hlater'⟩ := lastAt?_eq_some_iff.1 hindex
  rcases Nat.lt_trichotomy index last with hlt | heq | hlt
  · exact absurd hcontainer (hlater' last hlt image)
  · exact heq
  · exact absurd hcontainer' (hlater index hlt other)

theorem containerAt?_take (items : List Json) (last index : Nat) :
    containerAt? (items.take last) index =
      if index < last then containerAt? items index else none := by
  rw [containerAt?, List.getElem?_take]
  split <;> rfl

/-- The last entry with a name before the last one is not the last. -/
theorem lastAt?_eq_none_of_take (hlast : lastAt? items last = some (name, image))
    (hindex : lastAt? (items.take last) index = some (name, other)) :
    containerAt? items index = some (name, other) ∧ lastAt? items index = none := by
  obtain ⟨hcontainer, -⟩ := lastAt?_eq_some_iff.1 hindex
  rw [containerAt?_take] at hcontainer
  split at hcontainer
  · next hlt => exact ⟨hcontainer, lastAt?_eq_none_of_lt hlast hcontainer hlt⟩
  · cases hcontainer

/-- An entry is accepted the second time if it has been rewritten and its image has a registry, or
if it was accepted and has not been rewritten. -/
theorem containerAt?_canonicalItems_eq_some_iff :
    containerAt? (canonicalItems items) index = some (name, image) ↔
      (∃ found, lastAt? items index = some (name, found) ∧ found.registry ≠ "" ∧
        image = found.withoutDroppedTag) ∨
      (lastAt? items index = none ∧ containerAt? items index = some (name, image)) := by
  cases hlast : lastAt? items index with
  | none =>
    rw [containerAt?_canonicalItems_of_not_last hlast]
    simp
  | some entry =>
    obtain ⟨name', found⟩ := entry
    rw [containerAt?_canonicalItems_of_last hlast]
    constructor
    · intro h
      split at h
      · cases h
      · next hregistry =>
        obtain ⟨rfl, rfl⟩ := Prod.mk.inj (Option.some.inj h)
        exact Or.inl ⟨found, rfl, hregistry, rfl⟩
    · rintro (⟨found', hfound, hregistry, rfl⟩ | ⟨hnone, -⟩)
      · obtain ⟨rfl, rfl⟩ := Prod.mk.inj (Option.some.inj hfound)
        rw [if_neg hregistry]
      · cases hnone

/-- The last entry with a name is the last again if its image has a registry. -/
theorem lastAt?_canonicalItems_of_registry (hlast : lastAt? items index = some (name, image))
    (hregistry : image.registry ≠ "") :
    lastAt? (canonicalItems items) index = some (name, image.withoutDroppedTag) := by
  refine lastAt?_eq_some_iff.2 ⟨containerAt?_canonicalItems_eq_some_iff.2
    (Or.inl ⟨image, hlast, hregistry, rfl⟩), fun later hlt other hother => ?_⟩
  rcases containerAt?_canonicalItems_eq_some_iff.1 hother with ⟨_, hlater, -⟩ | ⟨-, hlater⟩
  · exact absurd (index_eq_of_lastAt? hlast hlater) (Nat.ne_of_gt hlt)
  · exact (lastAt?_eq_some_iff.1 hlast).2 later hlt other hlater

/-- If the image of the last entry with a name has no registry, the entry before it is the last. -/
theorem lastAt?_canonicalItems_of_take (hlast : lastAt? items last = some (name, other))
    (hregistry : other.registry = "")
    (hindex : lastAt? (items.take last) index = some (name, image)) :
    lastAt? (canonicalItems items) index = some (name, image) := by
  have hnone := lastAt?_eq_none_of_take hlast hindex
  refine lastAt?_eq_some_iff.2 ⟨containerAt?_canonicalItems_eq_some_iff.2 (Or.inr hnone.symm),
    fun later hafter other' hother => ?_⟩
  rcases containerAt?_canonicalItems_eq_some_iff.1 hother with
    ⟨found, hlater, hregistry', -⟩ | ⟨hlater, hcontainer⟩
  · obtain rfl := index_eq_of_lastAt? hlast hlater
    obtain ⟨-, rfl⟩ := Prod.mk.inj (Option.some.inj (hlast.symm.trans hlater))
    exact absurd hregistry hregistry'
  · -- A later entry stands between the two, is the one that was last, or stands behind it.
    rcases Nat.lt_trichotomy later last with hbefore | rfl | hbehind
    · refine (lastAt?_eq_some_iff.1 hindex).2 later hafter other' ?_
      rw [containerAt?_take, if_pos hbefore, hcontainer]
    · rw [hlast] at hlater
      cases hlater
    · exact (lastAt?_eq_some_iff.1 hlast).2 later hbehind other' hcontainer

/-- An entry that was not the last one with its name comes to be so when the one that was has an
image without a registry. -/
theorem exists_lastAt?_of_not_last
    (hagain : lastAt? (canonicalItems items) index = some (name, image))
    (hnone : lastAt? items index = none)
    (hcontainer : containerAt? items index = some (name, image)) :
    ∃ last found, lastAt? items last = some (name, found) ∧ found.registry = "" ∧
      lastAt? (items.take last) index = some (name, image) := by
  obtain ⟨-, hlater⟩ := lastAt?_eq_some_iff.1 hagain
  obtain ⟨last, found, hle, hlast⟩ := exists_lastAt? hcontainer
  have hlt : index < last := by
    refine Nat.lt_of_le_of_ne hle ?_
    rintro rfl
    rw [hlast] at hnone
    cases hnone
  have hregistry : found.registry = "" := by
    refine Decidable.byContradiction fun hregistry => hlater last hlt found.withoutDroppedTag ?_
    exact containerAt?_canonicalItems_eq_some_iff.2 (Or.inl ⟨found, hlast, hregistry, rfl⟩)
  refine ⟨last, found, hlast, hregistry, lastAt?_eq_some_iff.2 ⟨?_, ?_⟩⟩
  · rw [containerAt?_take, if_pos hlt, hcontainer]
  · -- An entry between the two would not have been rewritten, and would come after it now.
    intro later hindex other hother
    rw [containerAt?_take] at hother
    split at hother
    · next hbefore =>
      exact hlater later hindex other (containerAt?_canonicalItems_eq_some_iff.2
        (Or.inr ⟨lastAt?_eq_none_of_lt hlast hother hbefore, hother⟩))
    · cases hother

/-- **The last accepted entry with a name the second time** is the one that was, if its image has a
registry. If it has none, it is the one before. -/
theorem lastAt?_canonicalItems_eq_some_iff :
    lastAt? (canonicalItems items) index = some (name, image) ↔
      (∃ found, lastAt? items index = some (name, found) ∧ found.registry ≠ "" ∧
        image = found.withoutDroppedTag) ∨
      (∃ last found, lastAt? items last = some (name, found) ∧ found.registry = "" ∧
        lastAt? (items.take last) index = some (name, image)) := by
  constructor
  · intro h
    have hcontainer := (lastAt?_eq_some_iff.1 h).1
    rcases containerAt?_canonicalItems_eq_some_iff.1 hcontainer with hkept | ⟨hnone, hcontainer⟩
    · exact Or.inl hkept
    · exact Or.inr (exists_lastAt?_of_not_last h hnone hcontainer)
  · rintro (⟨found, hlast, hregistry, rfl⟩ | ⟨last, found, hlast, hregistry, hindex⟩)
    · exact lastAt?_canonicalItems_of_registry hlast hregistry
    · exact lastAt?_canonicalItems_of_take hlast hregistry hindex

/-- An entry that comes to be the last accepted one with its name, because the one after it is not
read any more, has its image in full already. -/
def Settled (items : List Json) : Prop :=
  ∀ last name image, lastAt? items last = some (name, image) → image.registry = "" →
    ∀ index other, lastAt? (items.take last) index = some (name, other) →
      imageAt? items index = some (.str other.canonical)

/-- **A list stays as it is the second time** exactly if it is settled. -/
theorem canonicalItems_canonicalItems_iff :
    canonicalItems (canonicalItems items) = canonicalItems items ↔ Settled items := by
  rw [canonicalItems_eq_self_iff]
  constructor
  · intro h last name image hlast hregistry index other hindex
    obtain ⟨-, hnone⟩ := lastAt?_eq_none_of_take hlast hindex
    rw [← imageAt?_canonicalItems_of_not_last hnone]
    exact h index name other
      (lastAt?_canonicalItems_eq_some_iff.2 (Or.inr ⟨last, image, hlast, hregistry, hindex⟩))
  · intro h index name image hagain
    rcases lastAt?_canonicalItems_eq_some_iff.1 hagain with
      ⟨found, hlast, -, rfl⟩ | ⟨last, found, hlast, hregistry, hindex⟩
    · rw [imageAt?_canonicalItems_of_last hlast, Image.canonical_withoutDroppedTag]
    · obtain ⟨-, hnone⟩ := lastAt?_eq_none_of_take hlast hindex
      rw [imageAt?_canonicalItems_of_not_last hnone]
      exact h last name found hlast hregistry index image hindex

/-! ## Documents -/

theorem containerItems_modifyPath (document : Json) (path : List String) (list : ContainerList) :
    containerItems (document.modifyPath path (Json.modifyLists fun _ => canonicalList)) path list =
      canonicalItems (containerItems document path list) := by
  unfold containerItems Json.itemsAt?
  rw [Json.atPath?_append, Json.atPath?_append, Json.atPath?_modifyPath]
  cases document.atPath? path with
  | none => rfl
  | some podSpec =>
    rw [Option.map_some, Option.bind_some, Option.bind_some, Json.atPath?_singleton,
      Json.atPath?_singleton, Json.field?_modifyLists]
    cases podSpec.field? list.field with
    | none => rfl
    | some value => cases value <;> rfl

theorem modifyPath_canonicalList_eq_self_iff :
    document.modifyPath path (Json.modifyLists fun _ => canonicalList) = document ↔
      ∀ list, canonicalItems (containerItems document path list) =
        containerItems document path list := by
  constructor
  · intro h list
    rw [← containerItems_modifyPath, h]
  · intro h
    refine (Json.modifyPath_eq_self_iff ..).2 fun podSpec hpath => ?_
    refine (Json.modifyLists_eq_self_iff ..).2 fun list value hlist => ?_
    cases value with
    | arr items =>
      have hitems := Json.itemsAt?_append_eq_some_iff.2 ⟨podSpec, hpath, hlist⟩
      have hsame := h list
      rw [containerItems, hitems, Option.getD_some] at hsame
      rw [canonicalList, hsame]
    | _ => rfl

theorem containersOf_canonicalDocument (document : Json) (kind : String) (list : ContainerList) :
    containersOf (canonicalDocument document kind) kind list =
      canonicalItems (containersOf document kind list) := by
  unfold containersOf canonicalDocument
  cases Workload.podSpecPath kind with
  | nil => rfl
  | cons key keys => exact containerItems_modifyPath document (key :: keys) list

theorem canonicalDocument_eq_self_iff {kind : String} :
    canonicalDocument document kind = document ↔
      ∀ list, canonicalItems (containersOf document kind list) =
        containersOf document kind list := by
  unfold containersOf canonicalDocument
  cases Workload.podSpecPath kind with
  | nil => exact ⟨fun _ _ => rfl, fun _ => rfl⟩
  | cons key keys => exact modifyPath_canonicalList_eq_self_iff

/-- Each kind with a pod spec keeps it below the field with the specification. -/
theorem podSpecPath_eq_or (kind : String) :
    Workload.podSpecPath kind = [] ∨ ∃ keys, Workload.podSpecPath kind = "spec" :: keys := by
  have hspec : ∀ entry ∈ Workload.podSpecPaths, entry.2.head? = some "spec" := by decide
  unfold Workload.podSpecPath
  cases hpath : Fields.get? kind Workload.podSpecPaths with
  | none => exact Or.inl rfl
  | some path =>
    have hhead : path.head? = some "spec" := hspec _ (Fields.mem_of_get? hpath)
    exact Or.inr (List.head?_eq_some_iff.1 hhead)

/-- Nothing but the specification of a document is changed. -/
theorem field?_canonicalDocument {key : String} (h : "spec" ≠ key) (document : Json)
    (kind : String) : (canonicalDocument document kind).field? key = document.field? key := by
  unfold canonicalDocument
  rcases podSpecPath_eq_or kind with hpath | ⟨keys, hpath⟩
  · rw [hpath]
  · rw [hpath]
    exact Json.field?_modifyField_of_ne h _ document

/-- The document after its images have been collected and written back. -/
def canonicalize (document : Json) : Except PatchError Json :=
  Patch.applyOps (collectDocument document).inventory.patches document

theorem canonicalize_eq (document : Json) :
    canonicalize document = .ok (canonicalDocument document (Workload.kindOf document)) :=
  applyOps_patches_eq document (Workload.kindOf document)

/-- **Writing images in full to a document that has them** changes nothing exactly if all its lists
of containers are settled. -/
theorem canonicalize_canonicalize_iff (document : Json) :
    ∃ rewritten, canonicalize document = .ok rewritten ∧
      (canonicalize rewritten = .ok rewritten ↔
        ∀ list, Settled (containersOf document (Workload.kindOf document) list)) := by
  refine ⟨_, canonicalize_eq document, ?_⟩
  -- The kind stands outside the specification, so the lists are looked for in the same place.
  have hkind : Workload.kindOf (canonicalDocument document (Workload.kindOf document)) =
      Workload.kindOf document := by
    rw [Workload.kindOf, Workload.kindOf?, field?_canonicalDocument (by decide)]
    rfl
  rw [canonicalize_eq, hkind, Except.ok.injEq, canonicalDocument_eq_self_iff]
  refine forall_congr' fun list => ?_
  rw [containersOf_canonicalDocument, canonicalItems_canonicalItems_iff]

/-- A pod with two containers of one name. -/
def podWithTwo (first second : String) : Json :=
  .obj [("kind", .str "Pod"), ("spec", .obj [("containers", .arr
    [.obj [("image", .str first), ("name", .str "x")],
      .obj [("image", .str second), ("name", .str "x")]])])]

/-- The image of the second container has no registry: once it is written in full it is rejected,
and the image of the first is written in full as well. -/
theorem canonicalize_podWithTwo :
    canonicalize (podWithTwo "nginx" "a_b.c/d") = .ok (podWithTwo "nginx" "/a_b.c/d:latest") ∧
      canonicalize (podWithTwo "nginx" "/a_b.c/d:latest") =
        .ok (podWithTwo "docker.io/nginx:latest" "/a_b.c/d:latest") ∧
      podWithTwo "docker.io/nginx:latest" "/a_b.c/d:latest" ≠
        podWithTwo "nginx" "/a_b.c/d:latest" := by
  refine ⟨by rfl, by rfl, ?_⟩
  decide

end WorkloadImages

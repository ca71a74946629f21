import WorkloadImages.Proofs.Workload.Sources

/-!
# Workloads by their pod spec

Collecting the images of a document reads its pod spec and nothing else. Where the pod spec stands
shows in the pointers only: each begins with the path to the pod spec, and another path in its place
gives the pointer for a document of another kind. So every workload is read as a pod is that has its
pod spec.

## Main definitions

* `Pointer.moved`: the text of a pointer with another one in place of its front
* `Collection.mapPointers`, `Collection.pointers`: the recorded pointers, changed and listed
* `podOf`: the pod with a pod spec

## Main results

* `collectAt_eq_mapPointers`: the same pod spec at two paths
* `exists_encode_eq_of_mem_pointers`: the recorded pointers begin with the path to the pod spec
* `collect_podOf`: a workload is read as the pod with its pod spec
-/

namespace WorkloadImages

variable {document other podSpec : Json} {kind : String} {old new : Pointer}
  {path rest : List String}

/-! ## Pointers -/

namespace Pointer

/-- The text of a pointer with `new` in place of `old`, if it begins with that. -/
def moved (old new : Pointer) (text : String) : String :=
  if old.encode.toList.isPrefixOf text.toList then
    new.encode ++ String.ofList (text.toList.drop old.encode.toList.length)
  else text

theorem moved_encode_append (old new rest : Pointer) :
    moved old new (encode (old ++ rest)) = encode (new ++ rest) := by
  have hprefix : old.encode.toList.isPrefixOf (encode (old ++ rest)).toList = true := by
    rw [List.isPrefixOf_iff_prefix, encode_append, String.toList_append]
    exact List.prefix_append _ _
  rw [moved, if_pos hprefix, encode_append old rest, String.toList_append, List.drop_left,
    String.ofList_toList, encode_append new rest]

end Pointer

/-- An image with its pointer changed. -/
def Image.mapPointer (change : String → String) (image : Image) : Image :=
  { image with pointer := change image.pointer }

/-- A rejection with its pointer changed. -/
def Rejection.mapPointer (change : String → String) : Rejection → Rejection
  | image pointer reference cause => image (change pointer) reference cause
  | container pointer cause => container (change pointer) cause

/-- What is read from a container, with its pointer changed. -/
def mapPointer (change : String → String) :
    Except Rejection (String × Image) → Except Rejection (String × Image)
  | .ok (name, image) => .ok (name, image.mapPointer change)
  | .error rejection => .error (rejection.mapPointer change)

/-- The images of an inventory with their pointers changed. -/
def Inventory.mapPointers (change : String → String) (inventory : Inventory) : Inventory where
  init := inventory.init.mapValues (Image.mapPointer change)
  main := inventory.main.mapValues (Image.mapPointer change)
  ephemeral := inventory.ephemeral.mapValues (Image.mapPointer change)

namespace Collection

/-- A collection with its pointers changed, and everything else as it is. -/
def mapPointers (change : String → String) (collection : Collection) : Collection where
  inventory := collection.inventory.mapPointers change
  rejections := collection.rejections.map (Rejection.mapPointer change)

/-- The pointers of a collection: those of the images, and those of the rejections. -/
def pointers (collection : Collection) : List String :=
  collection.inventory.entries.map (fun entry => entry.2.2.pointer) ++
    collection.rejections.map Rejection.pointer

end Collection

/-! ## One pod spec at two paths -/

/-- A container read at another place. -/
theorem readContainer_append (old new place : Pointer) (fields : Fields Json) :
    readContainer (new ++ place) fields =
      mapPointer (Pointer.moved old new) (readContainer (old ++ place) fields) := by
  unfold readContainer
  cases containerTexts fields with
  | error cause =>
    simp only [mapPointer, Rejection.mapPointer, Pointer.moved_encode_append]
  | ok texts =>
    obtain ⟨name, text⟩ := texts
    have hplace := Image.parseAt_place text (Pointer.encode (new ++ place ++ ["image"]))
      (Pointer.encode (old ++ place ++ ["image"]))
    have hpointer (image : Image)
        (h : Image.parseAt text (Pointer.encode (old ++ place ++ ["image"])) = .ok image) :
        image.pointer = Pointer.encode (old ++ place ++ ["image"]) :=
      Image.pointer_of_parseAt h
    dsimp only
    rw [hplace]
    cases hparse : Image.parseAt text (Pointer.encode (old ++ place ++ ["image"])) with
    | error cause =>
      simp only [Except.map, mapPointer, Rejection.mapPointer, List.append_assoc,
        Pointer.moved_encode_append]
    | ok image =>
      simp only [Except.map, mapPointer, Image.mapPointer, hpointer image hparse,
        List.append_assoc, Pointer.moved_encode_append]

theorem readList_eq_map (h : document.itemsAt? (new ++ rest) = other.itemsAt? (old ++ rest)) :
    readList document (new ++ rest) =
      (readList other (old ++ rest)).map (mapPointer (Pointer.moved old new)) := by
  unfold readList
  rw [h, List.map_filterMap]
  -- An entry has the same index in both lists, so it stands at the same place below the pod spec.
  refine congrArg (List.filterMap · _) (funext fun entry => ?_)
  obtain ⟨item, index⟩ := entry
  dsimp only
  cases item.asObject? with
  | none => rfl
  | some fields =>
    have hread := readContainer_append old new (rest ++ [toString index]) fields
    rw [← List.append_assoc, ← List.append_assoc] at hread
    simp only [Option.map_some, hread]

theorem accepted_map (change : String → String)
    (results : List (Except Rejection (String × Image))) :
    accepted (results.map (mapPointer change)) =
      Fields.mapValues (Image.mapPointer change) (accepted results) := by
  unfold accepted Fields.mapValues
  rw [List.filterMap_map, List.map_filterMap]
  refine congrArg (List.filterMap · _) (funext fun result => ?_)
  cases result <;> rfl

theorem rejected_map (change : String → String)
    (results : List (Except Rejection (String × Image))) :
    rejected (results.map (mapPointer change)) =
      (rejected results).map (Rejection.mapPointer change) := by
  unfold rejected
  rw [List.filterMap_map, List.map_filterMap]
  refine congrArg (List.filterMap · _) (funext fun result => ?_)
  cases result <;> rfl

/-- The lists of containers are those of the pod spec. -/
theorem itemsAt?_eq_of_atPath? (h : document.atPath? new = other.atPath? old)
    (list : ContainerList) :
    document.itemsAt? (new ++ [list.field]) = other.itemsAt? (old ++ [list.field]) := by
  unfold Json.itemsAt?
  rw [Json.atPath?_append, Json.atPath?_append, h]

/-- **The same pod spec at two paths** gives the same collection up to the fronts of the
pointers. -/
theorem collectAt_eq_mapPointers (h : document.atPath? new = other.atPath? old) :
    collectAt document new = (collectAt other old).mapPointers (Pointer.moved old new) := by
  have hlist (list : ContainerList) := readList_eq_map (itemsAt?_eq_of_atPath? h list)
  unfold collectAt Collection.mapPointers Inventory.mapPointers Inventory.ofLists
  simp only [hlist, accepted_map, rejected_map, Dict.ofList_mapValues, List.map_flatMap]

/-! ## Recorded pointers -/

/-- A rejection is recorded at the container or at its image. -/
theorem HasVerdict.exists_pointer_eq_encode {place : Pointer} {item : Json} {rejection : Rejection}
    (h : HasVerdict place item (.rejected rejection)) :
    ∃ rest, rejection.pointer = Pointer.encode (place ++ rest) := by
  cases h with
  | nameMissing => exact ⟨[], by rw [List.append_nil]; rfl⟩
  | nameNoText => exact ⟨[], by rw [List.append_nil]; rfl⟩
  | imageNoText => exact ⟨[], by rw [List.append_nil]; rfl⟩
  | imageRefused => exact ⟨["image"], rfl⟩

/-- **The recorded pointers** begin with the path to the pod spec. -/
theorem exists_encode_eq_of_mem_pointers {pointer : String}
    (h : pointer ∈ (collect document kind).pointers) :
    ∃ rest, pointer = Pointer.encode (Workload.podSpecPath kind ++ rest) := by
  rcases List.mem_append.1 h with himage | hrejection
  · obtain ⟨⟨list, name, image⟩, hentry, rfl⟩ := List.mem_map.1 himage
    obtain ⟨index, found, -, rfl⟩ := exists_lastAt?_of_mem_entries hentry
    exact ⟨_, rfl⟩
  · obtain ⟨rejection, hmem, rfl⟩ := List.mem_map.1 hrejection
    obtain ⟨list, index, item, -, hverdict⟩ := mem_rejections_collect_iff.1 hmem
    obtain ⟨rest, hpointer⟩ := hverdict.exists_pointer_eq_encode
    rw [containerPlace, List.append_assoc] at hpointer
    exact ⟨_, hpointer⟩

/-! ## Workloads as pods -/

/-- The pod with a pod spec, and nothing else. -/
def podOf (podSpec : Json) : Json := .obj [("spec", podSpec)]

theorem collect_eq_collectAt (hkind : Workload.podSpecPath kind ≠ []) (document : Json) :
    collect document kind = collectAt document (Workload.podSpecPath kind) := by
  unfold collect
  cases hpath : Workload.podSpecPath kind with
  | nil => exact absurd hpath hkind
  | cons key keys => rfl

/-- Without a pod spec there is nothing to collect. -/
theorem collectAt_of_atPath?_eq_none (h : document.atPath? path = none) :
    collectAt document path = ∅ := by
  have hitems (list : ContainerList) : document.itemsAt? (path ++ [list.field]) = none := by
    rw [Json.itemsAt?, Json.atPath?_append, h]
    rfl
  unfold collectAt readList
  simp only [hitems]
  rfl

/-- **Every workload is read as the pod with its pod spec.** The pointers of the pod all begin with
`/spec`; with the path to the pod spec of the workload in its place, and everything else as it is,
the collection of the pod is that of the workload. A document without a pod spec has no images and
no rejections. What stands outside the pod spec does not count. -/
theorem collect_podOf (document : Json) (hkind : Workload.podSpecPath kind ≠ []) :
    (∀ podSpec, document.atPath? (Workload.podSpecPath kind) = some podSpec →
      collect document kind = (collect (podOf podSpec) "Pod").mapPointers
        (Pointer.moved ["spec"] (Workload.podSpecPath kind)) ∧
      ∀ pointer ∈ (collect (podOf podSpec) "Pod").pointers, ∃ rest, pointer = "/spec" ++ rest) ∧
    (document.atPath? (Workload.podSpecPath kind) = none →
      collect document kind = ⟨∅, []⟩) ∧
    ∀ other : Json, other.atPath? (Workload.podSpecPath kind) =
        document.atPath? (Workload.podSpecPath kind) →
      collect other kind = collect document kind := by
  have hcollect (document : Json) := collect_eq_collectAt hkind document
  refine ⟨fun podSpec hpath => ⟨?_, fun pointer hmem => ?_⟩, fun hpath => ?_, fun other hsame => ?_⟩
  · have hpod : (podOf podSpec).atPath? ["spec"] = some podSpec := rfl
    have hmoved := collectAt_eq_mapPointers (hpath.trans hpod.symm)
    rw [hcollect, hmoved]
    rfl
  · obtain ⟨rest, rfl⟩ := exists_encode_eq_of_mem_pointers hmem
    have hpod : Workload.podSpecPath "Pod" = ["spec"] := rfl
    rw [hpod, Pointer.encode_append]
    exact ⟨_, rfl⟩
  · rw [hcollect, collectAt_of_atPath?_eq_none hpath]
    rfl
  · -- Only the lists of containers of the pod spec are looked at.
    have hitems (list : ContainerList) := itemsAt?_eq_of_atPath? hsame list
    rw [hcollect, hcollect]
    unfold collectAt readList
    simp only [hitems]

/-- A pod spec with a container that is read and one that is rejected. -/
def podSpecWithUnnamed : Json :=
  .obj [("containers", .arr [.obj [("image", .str "nginx"), ("name", .str "x")],
    .obj [("name", .int 1)]])]

/-- A workload that runs a pod spec on a schedule. -/
def scheduled (podSpec : Json) : Json :=
  .obj [("spec", .obj [("jobTemplate", .obj [("spec", .obj
    [("template", .obj [("spec", podSpec)])])])])]

theorem collect_podOf_scheduled :
    Workload.podSpecPath "CronJob" ≠ [] ∧
      (collect (podOf podSpecWithUnnamed) "Pod").pointers =
        ["/spec/containers/0/image", "/spec/containers/1"] ∧
      (collect (scheduled podSpecWithUnnamed) "CronJob").pointers =
        ["/spec/jobTemplate/spec/template/spec/containers/0/image",
          "/spec/jobTemplate/spec/template/spec/containers/1"] := by
  have hkind : Workload.podSpecPath "CronJob" ≠ [] := by decide
  obtain ⟨hspec, -, -⟩ := collect_podOf (scheduled podSpecWithUnnamed) hkind
  obtain ⟨hcollect, -⟩ := hspec podSpecWithUnnamed rfl
  refine ⟨hkind, by rfl, ?_⟩
  rw [hcollect]
  rfl

end WorkloadImages

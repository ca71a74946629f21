import WorkloadImages.Proofs.Workload.Containers
import WorkloadImages.Proofs.Workload.Rewriting

/-!
# Documents with images in full

What collecting the images of a document and writing them back makes of the document. It never
fails, and it changes the image of an entry exactly if the entry is the last accepted one with its
name: the entry then has the canonical text of its image.

## Main definitions

* `canonicalText?`: the text that is written for the image of an entry
* `canonicalItems`, `canonicalDocument`: a list of containers and a document with images in full

## Main results

* `mem_patches_collectAt_iff`: the operations that the collected images give
* `exists_patch_collect`: the patch that they make, and the document after it
* `applyOps_collect`: where that document differs from the one before
-/

namespace WorkloadImages

variable {document : Json} {path : List String}

/-! ## Images in full -/

/-- The canonical text of the image of the entry at an index, if the entry is the last accepted one
with its name. -/
def canonicalText? (items : List Json) (index : Nat) : Option String :=
  (lastAt? items index).map fun entry => entry.2.canonical

/-- The entries of a list with the images in full of the last accepted one with each name. -/
def canonicalItems (items : List Json) : List Json := Json.withImages (canonicalText? items) items

/-- A list of containers with the images in full of the last accepted entry with each name. -/
def canonicalList : Json → Json
  | .arr items => .arr (canonicalItems items)
  | value => value

/-- A document of a kind with images in full in each of its lists of containers; a document of a
kind without a pod spec stays as it is. -/
def canonicalDocument (document : Json) (kind : String) : Json :=
  match Workload.podSpecPath kind with
  | [] => document
  | path => document.modifyPath path (Json.modifyLists fun _ => canonicalList)

/-- The entries of a list of containers of the pod spec at a path. -/
def containerItems (document : Json) (path : List String) (list : ContainerList) : List Json :=
  (document.itemsAt? (path ++ [list.field])).getD []

/-- The entries of a list of containers of a document of a kind, none for a kind without a pod
spec. -/
def containersOf (document : Json) (kind : String) (list : ContainerList) : List Json :=
  match Workload.podSpecPath kind with
  | [] => []
  | path => containerItems document path list

theorem modifyPath_canonicalList (document : Json) (path : List String) :
    document.modifyPath path (Json.modifyLists fun list =>
        Json.writeImages (canonicalText? (containerItems document path list))) =
      document.modifyPath path (Json.modifyLists fun _ => canonicalList) := by
  refine Json.modifyPath_congr fun podSpec hpath =>
    Json.modifyLists_congr fun list value hlist => ?_
  cases value with
  | arr items =>
    have hitems := Json.itemsAt?_append_eq_some_iff.2 ⟨podSpec, hpath, hlist⟩
    rw [containerItems, hitems, Option.getD_some]
    rfl
  | _ => rfl

/-! ## Operations -/

/-- An entry with an accepted image has an image to be written over. -/
theorem haveImages_canonicalText? (document : Json) (path : List String) :
    HaveImages (fun list => canonicalText? (containerItems document path list)) path document := by
  intro list index text htext
  obtain ⟨⟨name, image⟩, hlast, -⟩ := Option.map_eq_some_iff.1 htext
  obtain ⟨hcontainer, -⟩ := lastAt?_eq_some_iff.1 hlast
  obtain ⟨item, hitem, hentry⟩ := Option.bind_eq_some_iff.1 hcontainer
  obtain ⟨-, old, hold, -⟩ := container?_eq_some_iff.1 hentry
  cases hitems : document.itemsAt? (path ++ [list.field]) with
  | none =>
    -- without the list there is no entry
    rw [containerItems, hitems] at hitem
    cases hitem
  | some items =>
    rw [containerItems, hitems] at hitem
    exact ⟨items, item, .str old, rfl, hitem, hold⟩

theorem mem_patches_iff {inventory : Inventory} {op : PatchOp} :
    op ∈ inventory.patches ↔
      ∃ list, ∃ image ∈ (inventory.list list).values, Inventory.patchOf image = op := by
  unfold Inventory.patches
  rw [List.mem_flatMap]
  constructor
  · rintro ⟨list, -, hop⟩
    exact ⟨list, List.mem_map.1 hop⟩
  · rintro ⟨list, hop⟩
    exact ⟨list, by cases list <;> decide, List.mem_map.2 hop⟩

theorem list_collectAt (document : Json) (path : List String) (list : ContainerList) :
    (collectAt document path).inventory.list list =
      Dict.ofList (collected (path ++ [list.field]) 0 (containerItems document path list)) := by
  rw [containerItems, ← accepted_readList]
  cases list <;> rfl

/-- The collected images give an operation for each image that is to be written in full. -/
theorem mem_patches_collectAt_iff {op : PatchOp} :
    op ∈ (collectAt document path).inventory.patches ↔
      ∃ list index text, canonicalText? (containerItems document path list) index = some text ∧
        op = ⟨Action.replace.word, imagePointer (path ++ [list.field]) index, text⟩ := by
  rw [mem_patches_iff]
  refine exists_congr fun list => ?_
  rw [list_collectAt]
  constructor
  · rintro ⟨image, himage, rfl⟩
    obtain ⟨index, name, found, hlast, rfl⟩ := mem_values_collected_iff.1 himage
    refine ⟨index, found.canonical, ?_, rfl⟩
    rw [canonicalText?, hlast, Option.map_some]
  · rintro ⟨index, text, htext, rfl⟩
    obtain ⟨⟨name, found⟩, hlast, rfl⟩ := Option.map_eq_some_iff.1 htext
    exact ⟨_, mem_values_collected_iff.2 ⟨index, name, found, hlast, rfl⟩, rfl⟩

theorem imagePointer_eq (path : List String) (list : ContainerList) (index : Nat) :
    imagePointer (path ++ [list.field]) index = (imagePlace path list index).encode := by
  simp [imagePointer, imagePlace]

theorem ofOp?_imagePointer (path : List String) (list : ContainerList) (index : Nat)
    (text : String) :
    Operation.ofOp? ⟨Action.replace.word, imagePointer (path ++ [list.field]) index, text⟩ =
      some (imageWrite path list index text) := by
  rw [imagePointer_eq]
  exact Operation.ofOp?_encode .replace (imagePlace path list index) text

/-! ## Documents -/

theorem exists_patch_collectAt (document : Json) (path : List String) :
    ∃ patch, Patch.ofOps? (collectAt document path).inventory.patches = some patch ∧
      ∀ operation, operation ∈ patch ↔ ∃ list index text,
        canonicalText? (containerItems document path list) index = some text ∧
          operation = imageWrite path list index text := by
  have hvalid : ∀ op ∈ (collectAt document path).inventory.patches,
      ∃ operation, Operation.ofOp? op = some operation := by
    intro op hop
    obtain ⟨list, index, text, -, rfl⟩ := mem_patches_collectAt_iff.1 hop
    exact ⟨_, ofOp?_imagePointer path list index text⟩
  obtain ⟨patch, hpatch, hmem⟩ := Patch.exists_ofOps? hvalid
  refine ⟨patch, hpatch, fun operation => ?_⟩
  rw [hmem]
  constructor
  · rintro ⟨op, hop, hoperation⟩
    obtain ⟨list, index, text, htext, rfl⟩ := mem_patches_collectAt_iff.1 hop
    rw [ofOp?_imagePointer] at hoperation
    exact ⟨list, index, text, htext, (Option.some.inj hoperation).symm⟩
  · rintro ⟨list, index, text, htext, rfl⟩
    exact ⟨_, mem_patches_collectAt_iff.2 ⟨list, index, text, htext, rfl⟩,
      ofOp?_imagePointer path list index text⟩

/-- The collected images give a patch that writes every image that is to be written in full. -/
theorem exists_patch_collect (document : Json) (kind : String) :
    ∃ patch, Patch.ofOps? (collect document kind).inventory.patches = some patch ∧
      (∀ operation, operation ∈ patch ↔ ∃ list index text,
        canonicalText? (containersOf document kind list) index = some text ∧
          operation = imageWrite (Workload.podSpecPath kind) list index text) ∧
      patch.apply document = .ok (canonicalDocument document kind) := by
  unfold collect containersOf canonicalDocument
  cases Workload.podSpecPath kind with
  | nil => exact ⟨[], rfl, by simp [canonicalText?, lastAt?], rfl⟩
  | cons key keys =>
    obtain ⟨patch, hpatch, hmem⟩ := exists_patch_collectAt document (key :: keys)
    have happly := apply_imageWrites (haveImages_canonicalText? document (key :: keys)) hmem
    rw [modifyPath_canonicalList] at happly
    exact ⟨patch, hpatch, hmem, happly⟩

theorem applyOps_patches_eq (document : Json) (kind : String) :
    Patch.applyOps (collect document kind).inventory.patches document =
      .ok (canonicalDocument document kind) := by
  obtain ⟨patch, hpatch, -, happly⟩ := exists_patch_collect document kind
  rw [Patch.applyOps, hpatch]
  exact happly

/-- **Writing back the images that have been collected from a document** never fails. It gives the
document with images in full: the pointer to the image of the last accepted entry with each name
leads to the canonical text, and a pointer apart from those leads to what it did. -/
theorem applyOps_collect (document : Json) (kind : String) :
    ∃ rewritten, Patch.applyOps (collect document kind).inventory.patches document =
        .ok rewritten ∧
      rewritten = canonicalDocument document kind ∧
      (∀ list index text, canonicalText? (containersOf document kind list) index = some text →
        rewritten.at? (imagePlace (Workload.podSpecPath kind) list index) = some (.str text)) ∧
      ∀ pointer, (∀ list index text,
          canonicalText? (containersOf document kind list) index = some text →
          (imagePlace (Workload.podSpecPath kind) list index).Apart pointer) →
        rewritten.at? pointer = document.at? pointer := by
  obtain ⟨patch, hpatch, hmem, happly⟩ := exists_patch_collect document kind
  have hreplace : ∀ operation ∈ patch, operation.action = .replace := by
    intro operation hoperation
    obtain ⟨list, index, text, -, rfl⟩ := (hmem operation).1 hoperation
    rfl
  refine ⟨_, by rw [Patch.applyOps, hpatch]; exact happly, rfl, ?_, ?_⟩
  · intro list index text htext
    have hwrite := (hmem _).2 ⟨list, index, text, htext, rfl⟩
    refine Patch.at?_applyFrom_of_mem happly hreplace (fun other hother => ?_) hwrite
    obtain ⟨list', index', text', htext', rfl⟩ := (hmem other).1 hother
    -- Two operations of the patch are the same, or they write to places that are apart.
    by_cases hplace : imagePlace (Workload.podSpecPath kind) list' index' =
        imagePlace (Workload.podSpecPath kind) list index
    · obtain ⟨rfl, rfl⟩ := imagePlace_injective hplace
      obtain rfl := Option.some.inj (htext.symm.trans htext')
      exact Or.inl rfl
    · exact Or.inr (imagePlace_apart hplace)
  · intro pointer hapart
    refine Patch.at?_applyFrom_of_apart happly hreplace fun operation hoperation => ?_
    obtain ⟨list, index, text, htext, rfl⟩ := (hmem operation).1 hoperation
    exact hapart list index text htext

end WorkloadImages

import WorkloadImages.Proofs.Json.Resolution
import WorkloadImages.Proofs.Patch.Independent
import WorkloadImages.Proofs.Workload.Sources

/-!
# Writing images to other documents

The images of one document may be written to another one, as when it has changed since they were
collected. What counts is whether their pointers lead somewhere in it. Then every image is written,
and the rest of the document stays as it is; otherwise all of it does. In which order the images are
written shows neither way.

## Main definitions

* `Inventory.Records`: the places that an inventory has images for
* `imagePatch`: the patch that writes the collected images

## Main results

* `independent_imagePatch`: the operations for collected images are independent
* `applyInPlace_perm`: they may be applied in any order
* `applyInPlace_patches_collect`: what they make of any document
-/

namespace WorkloadImages

variable {document target after : Json} {kind name : String} {list : ContainerList} {image : Image}
  {place : Pointer} {ops : List PatchOp} {cause : PatchError}

/-! ## Operations -/

namespace Inventory

variable {inventory : Inventory}

/-- An image of the inventory was read at the place. -/
def Records (inventory : Inventory) (place : Pointer) : Prop :=
  ∃ list name image, (list, name, image) ∈ inventory.entries ∧ image.pointer = place.encode

/-- The images are written in another order than they are listed in. -/
theorem patches_perm (inventory : Inventory) :
    (inventory.entries.map fun entry => patchOf entry.2.2).Perm inventory.patches := by
  have horder : ContainerList.all.Perm ContainerList.patchOrder := by decide
  unfold entries patches Dict.values
  rw [List.map_flatMap]
  simp only [List.map_map]
  exact horder.flatMap_right _

theorem mem_patches_iff_entries {op : PatchOp} :
    op ∈ inventory.patches ↔
      ∃ list name image, (list, name, image) ∈ inventory.entries ∧ patchOf image = op := by
  rw [← inventory.patches_perm.mem_iff, List.mem_map]
  constructor
  · rintro ⟨⟨list, name, image⟩, hmem, hop⟩
    exact ⟨list, name, image, hmem, hop⟩
  · rintro ⟨list, name, image, hmem, hop⟩
    exact ⟨(list, name, image), hmem, hop⟩

/-- The operation for an image with a pointer that can be read. -/
theorem replacement_patchOf (h : image.pointer = place.encode) :
    (patchOf image).replacement = ⟨.replace, place, image.canonical⟩ := by
  simp only [PatchOp.replacement, patchOf, h, Pointer.decode?_encode, Option.getD_some]

theorem ofOp?_patchOf (h : image.pointer = place.encode) :
    Operation.ofOp? (patchOf image) = some (patchOf image).replacement := by
  rw [replacement_patchOf h, patchOf, h]
  exact Operation.ofOp?_encode .replace place image.canonical

end Inventory

/-- The pointer of a collected image is the text of one. -/
theorem exists_pointer_eq_encode
    (h : (list, name, image) ∈ (collect document kind).inventory.entries) :
    ∃ place : Pointer, image.pointer = place.encode := by
  obtain ⟨index, found, -, rfl⟩ := exists_lastAt?_of_mem_entries h
  exact ⟨_, rfl⟩

theorem ofOp?_of_mem_patches {op : PatchOp}
    (h : op ∈ (collect document kind).inventory.patches) :
    Operation.ofOp? op = some op.replacement := by
  obtain ⟨list, name, image, hmem, rfl⟩ := Inventory.mem_patches_iff_entries.1 h
  obtain ⟨place, hplace⟩ := exists_pointer_eq_encode hmem
  exact Inventory.ofOp?_patchOf hplace

/-- The patch that writes the collected images. -/
def imagePatch (document : Json) (kind : String) : Patch :=
  (collect document kind).inventory.patches.map PatchOp.replacement

theorem mem_imagePatch_iff {operation : Operation} :
    operation ∈ imagePatch document kind ↔
      ∃ list name image, (list, name, image) ∈ (collect document kind).inventory.entries ∧
        ∃ place : Pointer, image.pointer = place.encode ∧
          operation = ⟨.replace, place, image.canonical⟩ := by
  unfold imagePatch
  simp only [List.mem_map, Inventory.mem_patches_iff_entries]
  constructor
  · rintro ⟨op, ⟨list, name, image, hmem, rfl⟩, rfl⟩
    obtain ⟨place, hplace⟩ := exists_pointer_eq_encode hmem
    exact ⟨list, name, image, hmem, place, hplace, Inventory.replacement_patchOf hplace⟩
  · rintro ⟨list, name, image, hmem, place, hplace, rfl⟩
    exact ⟨_, ⟨list, name, image, hmem, rfl⟩, Inventory.replacement_patchOf hplace⟩

/-- **The operations for collected images** are independent. -/
theorem independent_imagePatch (document : Json) (kind : String) :
    (imagePatch document kind).Independent := by
  have happly := (Inventory.patches_perm (collect document kind).inventory).map PatchOp.replacement
  refine Patch.Independent.perm ⟨?_, ?_⟩ happly
  · intro operation hmem
    obtain ⟨op, -, rfl⟩ := List.mem_map.1 hmem
    rfl
  · rw [List.map_map, List.pairwise_map]
    apply (pairwise_pointers document kind).imp_of_mem
    rintro ⟨list, name, image⟩ ⟨list', name', image'⟩ hfirst hsecond ⟨hleads, hleads'⟩
    obtain ⟨place, hplace⟩ := exists_pointer_eq_encode hfirst
    obtain ⟨place', hplace'⟩ := exists_pointer_eq_encode hsecond
    simp only [hplace, hplace'] at hleads hleads'
    simp only [Function.comp_apply, Operation.Apart, Inventory.replacement_patchOf hplace,
      Inventory.replacement_patchOf hplace']
    exact Pointer.apart_of_encode hleads hleads'

theorem applyOps_patches_collect (document : Json) (kind : String) (target : Json) :
    Patch.applyOps (collect document kind).inventory.patches target =
      (imagePatch document kind).apply target :=
  Patch.applyOps_of_valid (fun _ => ofOp?_of_mem_patches) target

theorem records_of_mem_imagePatch {operation : Operation}
    (h : operation ∈ imagePatch document kind) :
    (collect document kind).inventory.Records operation.pointer := by
  obtain ⟨list, name, image, hmem, place, hplace, rfl⟩ := mem_imagePatch_iff.1 h
  exact ⟨list, name, image, hmem, hplace⟩

/-! ## The order of the operations -/

theorem applyOps_perm_eq_ok_iff (hperm : ops.Perm (collect document kind).inventory.patches) :
    Patch.applyOps ops target = .ok after ↔
      Patch.applyOps (collect document kind).inventory.patches target = .ok after := by
  have hvalid : ∀ op ∈ ops, Operation.ofOp? op = some op.replacement :=
    fun op hop => ofOp?_of_mem_patches (hperm.mem_iff.1 hop)
  rw [applyOps_patches_collect, Patch.applyOps_of_valid hvalid, ← Patch.result?_eq_some_iff,
    ← Patch.result?_eq_some_iff]
  have hsame := (independent_imagePatch document kind).result?_perm
    (hperm.symm.map PatchOp.replacement) target
  rw [hsame]

/-- **The operations for collected images may be applied in any order** to any document, for
instance in the order in which the images are listed. They can be applied in one order exactly if
they can in the other, and leave the same document: one that cannot be written to as it was. -/
theorem applyInPlace_perm (document target : Json) (kind : String)
    (hperm : ops.Perm (collect document kind).inventory.patches) :
    ((Patch.applyInPlace ops target).1 = .ok () ↔
      (Patch.applyInPlace (collect document kind).inventory.patches target).1 = .ok ()) ∧
    (Patch.applyInPlace ops target).2 =
      (Patch.applyInPlace (collect document kind).inventory.patches target).2 ∧
    ((Patch.applyInPlace ops target).1 ≠ .ok () →
      (Patch.applyInPlace ops target).2 = target) ∧
    ((collect document kind).inventory.entries.map fun entry =>
      Inventory.patchOf entry.2.2).Perm (collect document kind).inventory.patches := by
  cases happly : Patch.applyOps (collect document kind).inventory.patches target with
  | ok changed =>
    have hops := (applyOps_perm_eq_ok_iff hperm).2 happly
    rw [Patch.applyInPlace_of_ok happly, Patch.applyInPlace_of_ok hops]
    exact ⟨Iff.rfl, rfl, fun hfailed => absurd rfl hfailed, Inventory.patches_perm _⟩
  | error cause =>
    cases hops : Patch.applyOps ops target with
    | ok changed =>
      rw [applyOps_perm_eq_ok_iff hperm, happly] at hops
      cases hops
    | error cause' =>
      rw [Patch.applyInPlace_of_error happly, Patch.applyInPlace_of_error hops]
      exact ⟨iff_of_false nofun nofun, rfl, fun _ => rfl, Inventory.patches_perm _⟩

/-- A pod with a container in each of two lists. -/
def podWithInit : Json :=
  .obj [("spec", .obj [("containers", .arr [.obj [("image", .str "nginx"), ("name", .str "x")]]),
    ("initContainers", .arr [.obj [("image", .str "redis"), ("name", .str "y")]])])]

/-- A document that has an object with numbers as keys where a pod has an array. -/
def numberedContainers (main init : Json) : Json :=
  .obj [("spec", .obj [("containers", .obj [("0", .obj [("image", main)])]),
    ("initContainers", .arr [.obj [("image", init)]])])]

theorem applyInPlace_perm_numberedContainers :
    ((collect podWithInit "Pod").inventory.entries.map fun entry =>
        Inventory.patchOf entry.2.2).Perm (collect podWithInit "Pod").inventory.patches ∧
      (Patch.applyInPlace ((collect podWithInit "Pod").inventory.entries.map fun entry =>
          Inventory.patchOf entry.2.2) (numberedContainers .null (.bool true))).2 =
        numberedContainers (.str "docker.io/nginx:latest") (.str "docker.io/redis:latest") := by
  have hperm := Inventory.patches_perm (collect podWithInit "Pod").inventory
  obtain ⟨-, hsame, -, -⟩ :=
    applyInPlace_perm podWithInit (numberedContainers .null (.bool true)) "Pod" hperm
  refine ⟨hperm, hsame.trans ?_⟩
  rfl

/-! ## What becomes of a document -/

theorem exists_applyOps_iff (document target : Json) (kind : String) :
    (∃ after, Patch.applyOps (collect document kind).inventory.patches target = .ok after) ↔
      ∀ list name image, (list, name, image) ∈ (collect document kind).inventory.entries →
        ∃ old, target.resolve? image.pointer = some old := by
  simp only [applyOps_patches_collect, ← Patch.result?_eq_some_iff]
  rw [(independent_imagePatch document kind).exists_result?_iff]
  constructor
  · intro h list name image hmem
    obtain ⟨place, hplace⟩ := exists_pointer_eq_encode hmem
    rw [hplace, Json.resolve?_encode]
    exact h _ (mem_imagePatch_iff.2 ⟨list, name, image, hmem, place, hplace, rfl⟩)
  · intro h operation hoperation
    obtain ⟨list, name, image, hmem, place, hplace, rfl⟩ := mem_imagePatch_iff.1 hoperation
    have hold := h list name image hmem
    rwa [hplace, Json.resolve?_encode] at hold

section Applied

variable (h : Patch.applyOps (collect document kind).inventory.patches target = .ok after)
include h

theorem resolve?_of_applyOps
    (hmem : (list, name, image) ∈ (collect document kind).inventory.entries) :
    after.resolve? image.pointer = some (.str image.canonical) := by
  have hindependent := independent_imagePatch document kind
  obtain ⟨place, hplace⟩ := exists_pointer_eq_encode hmem
  have hoperation := mem_imagePatch_iff.2 ⟨list, name, image, hmem, place, hplace, rfl⟩
  rw [applyOps_patches_collect] at h
  rw [hplace, Json.resolve?_encode]
  exact Patch.at?_applyFrom_of_mem h hindependent.replace
    (fun _ hother => hindependent.eq_or_apart hother hoperation) hoperation

theorem at?_of_applyOps {pointer : Pointer}
    (hapart : ∀ place, (collect document kind).inventory.Records place → place.Apart pointer) :
    after.at? pointer = target.at? pointer := by
  rw [applyOps_patches_collect] at h
  apply Patch.at?_applyFrom_of_apart h (independent_imagePatch document kind).replace
  intro operation hmem
  exact hapart _ (records_of_mem_imagePatch hmem)

theorem outline_of_applyOps {pointer : Pointer}
    (hinside : ∀ place, (collect document kind).inventory.Records place → ¬ place <+: pointer) :
    (after.at? pointer).map Json.outline = (target.at? pointer).map Json.outline := by
  rw [applyOps_patches_collect] at h
  apply Patch.outline_at?_applyFrom h (independent_imagePatch document kind).replace
  intro operation hmem
  exact hinside _ (records_of_mem_imagePatch hmem)

end Applied

/-- Where the images cannot be written, one of their pointers leads nowhere. -/
theorem exists_of_applyOps_eq_error
    (h : Patch.applyOps (collect document kind).inventory.patches target = .error cause) :
    ∃ index place, (collect document kind).inventory.Records place ∧
      target.at? place = none ∧ cause = .failed index place .invalidPath := by
  rw [applyOps_patches_collect] at h
  obtain ⟨index, operation, hmem, hnone, hcause⟩ :=
    (independent_imagePatch document kind).exists_of_applyFrom_eq_error h
  exact ⟨index, operation.pointer, records_of_mem_imagePatch hmem, hnone, hcause⟩

/-- **Collected images are written to any document** if each of their pointers leads somewhere in
it, and only then. The pointers lead to the canonical texts afterwards, what is apart from them is
as it was, and what is around them has as many items or the same keys. A document that the images
are not written to stays as it was, and the error tells a pointer that leads nowhere. -/
theorem applyInPlace_patches_collect (document target : Json) (kind : String) :
    ∃ result after,
      Patch.applyInPlace (collect document kind).inventory.patches target = (result, after) ∧
      (result = .ok () ↔
        ∀ list name image, (list, name, image) ∈ (collect document kind).inventory.entries →
          ∃ old, target.resolve? image.pointer = some old) ∧
      (result = .ok () →
        (∀ list name image, (list, name, image) ∈ (collect document kind).inventory.entries →
          after.resolve? image.pointer = some (.str image.canonical)) ∧
        (∀ pointer, (∀ place, (collect document kind).inventory.Records place →
            place.Apart pointer) →
          after.at? pointer = target.at? pointer) ∧
        ∀ pointer, (∀ place, (collect document kind).inventory.Records place →
            ¬ place <+: pointer) →
          (after.at? pointer).map Json.outline = (target.at? pointer).map Json.outline) ∧
      ∀ cause, result = .error cause →
        after = target ∧ ∃ index place, (collect document kind).inventory.Records place ∧
          target.at? place = none ∧ cause = .failed index place .invalidPath := by
  cases happly : Patch.applyOps (collect document kind).inventory.patches target with
  | ok after =>
    refine ⟨.ok (), after, Patch.applyInPlace_of_ok happly, ?_, ?_, nofun⟩
    · exact iff_of_true rfl ((exists_applyOps_iff document target kind).1 ⟨after, happly⟩)
    · intro _
      exact ⟨fun _ _ _ => resolve?_of_applyOps happly, fun _ => at?_of_applyOps happly,
        fun _ => outline_of_applyOps happly⟩
  | error cause =>
    refine ⟨.error cause, target, Patch.applyInPlace_of_error happly, ?_, nofun, ?_⟩
    · refine iff_of_false nofun ?_
      rw [← exists_applyOps_iff, happly]
      rintro ⟨_, hsome⟩
      cases hsome
    · intro cause' hcause
      obtain rfl := Except.error.inj hcause
      exact ⟨rfl, exists_of_applyOps_eq_error happly⟩

end WorkloadImages

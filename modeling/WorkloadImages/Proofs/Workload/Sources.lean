import Mathlib.Data.List.Pairwise
import WorkloadImages.Proofs.Json.Resolution
import WorkloadImages.Proofs.Workload.Verdicts

/-!
# Where images were read

The pointers that a collection holds are texts, put together next to the walk that finds the
containers. They lead where the walk went: from the pointer of an image to the text that it was
read from, and without its last token to the container with the name that the image is kept under.
No pointer of an image begins with that of another one.

## Main definitions

* `containerPlace`: the pointer to an entry of a list of containers

## Main results

* `at?_containerPlace`: the pointer to an entry leads to it
* `exists_lastAt?_of_mem_entries`: the entry that an image was read from
* `pairwise_pointers`: no pointer of an image begins with that of another one
* `mem_rejections_collect_iff`: the entries that rejections are of
* `collect_sources`: every pointer leads to what it was recorded for
-/

namespace WorkloadImages

variable {document item : Json} {kind name name' : String} {list list' : ContainerList}
  {image image' : Image} {index : Nat} {inventory : Inventory}

/-! ## Entries of inventories -/

namespace Inventory

theorem mem_entries_iff :
    (list, name, image) ∈ inventory.entries ↔ (inventory.list list).get? name = some image := by
  rw [← Dict.mem_entries_iff]
  unfold entries
  simp only [List.mem_flatMap, List.mem_map]
  constructor
  · rintro ⟨other, -, ⟨name', image'⟩, hmem, hentry⟩
    cases hentry
    exact hmem
  · intro hmem
    refine ⟨list, ?_, (name, image), hmem, rfl⟩
    cases list <;> decide

/-- A name is kept once in each list. -/
theorem pairwise_entries (inventory : Inventory) :
    inventory.entries.Pairwise fun first second =>
      (first.1, first.2.1) ≠ (second.1, second.2.1) := by
  unfold entries
  rw [List.pairwise_flatMap]
  constructor
  · intro list _
    rw [List.pairwise_map]
    apply (inventory.list list).sorted.imp
    intro first second hlt heq
    obtain ⟨-, hname⟩ := Prod.mk.inj heq
    rw [hname] at hlt
    exact String.lt_irrefl _ hlt
  · have hlists : ContainerList.all.Pairwise (· ≠ ·) := by decide
    apply hlists.imp
    intro list list' hne first hfirst second hsecond heq
    obtain ⟨_, -, rfl⟩ := List.mem_map.1 hfirst
    obtain ⟨_, -, rfl⟩ := List.mem_map.1 hsecond
    exact hne (Prod.mk.inj heq).1

end Inventory

/-! ## Places -/

/-- The pointer to the entry at an index of a list of a document of a kind. -/
def containerPlace (kind : String) (list : ContainerList) (index : Nat) : Pointer :=
  Workload.podSpecPath kind ++ [list.field, toString index]

theorem imagePlace_eq (kind : String) (list : ContainerList) (index : Nat) :
    imagePlace (Workload.podSpecPath kind) list index =
      containerPlace kind list index ++ ["image"] := by
  simp [imagePlace, containerPlace]

theorem encode_imagePlace (kind : String) (list : ContainerList) (index : Nat) :
    (imagePlace (Workload.podSpecPath kind) list index).encode =
      (containerPlace kind list index).encode ++ "/image" := by
  rw [imagePlace_eq, Pointer.encode_append]
  rfl

/-- **The pointer to an entry** leads to it. -/
theorem at?_containerPlace (h : (containersOf document kind list)[index]? = some item) :
    document.at? (containerPlace kind list index) = some item := by
  unfold containersOf at h
  unfold containerPlace
  cases hpath : Workload.podSpecPath kind with
  | nil =>
    rw [hpath] at h
    cases h
  | cons key keys =>
    rw [hpath] at h
    simp only [containerItems] at h
    cases hitems : document.itemsAt? (key :: keys ++ [list.field]) with
    | none =>
      rw [hitems] at h
      cases h
    | some items =>
      rw [hitems, Option.getD_some] at h
      have hplace := Json.at?_of_itemsAt? hitems h
      rw [List.append_assoc] at hplace
      exact hplace

/-- **The entry that an image was read from** is the last accepted one with its name. -/
theorem exists_lastAt?_of_mem_entries
    (h : (list, name, image) ∈ (collect document kind).inventory.entries) :
    ∃ index found, lastAt? (containersOf document kind list) index = some (name, found) ∧
      image = { found with
        pointer := (imagePlace (Workload.podSpecPath kind) list index).encode } := by
  obtain ⟨index, found, hlast, himage⟩ := get?_collect_iff.1 (Inventory.mem_entries_iff.1 h)
  rw [imagePointer_eq] at himage
  exact ⟨index, found, hlast, himage⟩

/-- **If the pointer of an image begins with that of another one**, both are the same image. -/
theorem eq_of_pointer_prefix
    (h : (list, name, image) ∈ (collect document kind).inventory.entries)
    (h' : (list', name', image') ∈ (collect document kind).inventory.entries)
    (hleads : image.pointer.toList <+: image'.pointer.toList) : list = list' ∧ name = name' := by
  obtain ⟨index, found, hlast, rfl⟩ := exists_lastAt?_of_mem_entries h
  obtain ⟨index', found', hlast', rfl⟩ := exists_lastAt?_of_mem_entries h'
  simp only [imagePlace_eq, Pointer.encode, String.toList_ofList] at hleads
  have hplace : containerPlace kind list index = containerPlace kind list' index' := by
    apply Pointer.eq_of_encodeChars_prefix _ hleads
    simp [containerPlace]
  have himage := congrArg (· ++ ["image"]) hplace
  simp only [← imagePlace_eq] at himage
  obtain ⟨rfl, rfl⟩ := imagePlace_injective himage
  exact ⟨rfl, (Prod.mk.inj (Option.some.inj (hlast.symm.trans hlast'))).1⟩

/-- No pointer of an image begins with that of another one. -/
theorem pairwise_pointers (document : Json) (kind : String) :
    (collect document kind).inventory.entries.Pairwise fun first second =>
      ¬ first.2.2.pointer.toList <+: second.2.2.pointer.toList ∧
        ¬ second.2.2.pointer.toList <+: first.2.2.pointer.toList := by
  apply (Inventory.pairwise_entries _).imp_of_mem
  rintro ⟨list, name, image⟩ ⟨list', name', image'⟩ hfirst hsecond hne
  constructor
  · intro hleads
    obtain ⟨rfl, rfl⟩ := eq_of_pointer_prefix hfirst hsecond hleads
    exact hne rfl
  · intro hleads
    obtain ⟨rfl, rfl⟩ := eq_of_pointer_prefix hsecond hfirst hleads
    exact hne rfl

/-- **The source of an image**: its pointer leads to the text that it was read from, and without
the last token to the container that it is named for. -/
theorem exists_source_of_mem_entries
    (h : (list, name, image) ∈ (collect document kind).inventory.entries) :
    ∃ index text fields,
      image.pointer = (containerPlace kind list index).encode ++ "/image" ∧
      document.resolve? image.pointer = some (.str text) ∧
      Image.parseAt text image.pointer = .ok image ∧
      document.resolve? (containerPlace kind list index).encode = some (.obj fields) ∧
      Fields.get? "name" fields = some (.str name) := by
  obtain ⟨index, found, hlast, rfl⟩ := exists_lastAt?_of_mem_entries h
  obtain ⟨item, hitem, hentry⟩ := Option.bind_eq_some_iff.1 (lastAt?_eq_some_iff.1 hlast).1
  obtain ⟨hname, text, htext, hparse⟩ := container?_eq_some_iff.1 hentry
  have hplace := at?_containerPlace hitem
  cases item with
  | obj fields =>
    refine ⟨index, text, fields, encode_imagePlace kind list index, ?_, ?_, ?_, hname⟩
    · rw [Json.resolve?_encode, imagePlace_eq, Json.at?_field hplace]
      exact htext
    · rw [Image.parseAt_place text _ (Pointer.encode ["image"]), hparse]
      rfl
    · rw [Json.resolve?_encode, hplace]
  | _ => cases hname

/-! ## Rejections -/

/-- **The entries that rejections are of** are those with a verdict that says so. -/
theorem mem_rejections_collect_iff {rejection : Rejection} :
    rejection ∈ (collect document kind).rejections ↔
      ∃ list index item, (containersOf document kind list)[index]? = some item ∧
        HasVerdict (containerPlace kind list index) item (.rejected rejection) := by
  have hplace (list : ContainerList) (index : Nat) : containerPlace kind list index =
      Workload.podSpecPath kind ++ [list.field] ++ [toString index] := by
    simp [containerPlace]
  rw [rejections_collect]
  simp only [List.mem_flatMap, List.mem_filterMap, hasVerdict_iff, hplace]
  constructor
  · rintro ⟨list, -, verdict, hverdict, hrejection⟩
    obtain ⟨index, hindex⟩ := List.mem_iff_getElem?.1 hverdict
    rw [verdictsOf, getElem?_verdicts] at hindex
    obtain ⟨item, hitem, rfl⟩ := Option.map_eq_some_iff.1 hindex
    refine ⟨list, index, item, hitem, ?_⟩
    cases hjudge : judge (Workload.podSpecPath kind ++ [list.field] ++ [toString index]) item with
    | rejected other =>
      rw [hjudge] at hrejection
      rw [Option.some.inj hrejection]
    | _ =>
      rw [hjudge] at hrejection
      cases hrejection
  · rintro ⟨list, index, item, hitem, hjudge⟩
    refine ⟨list, ?_, .rejected rejection, List.mem_iff_getElem?.2 ⟨index, ?_⟩, rfl⟩
    · cases list <;> decide
    · rw [verdictsOf, getElem?_verdicts, hitem, Option.map_some, hjudge]

/-- Only an object is rejected, and where a field cannot be read the pointer is that to it. -/
theorem exists_fields_of_hasVerdict {place : Pointer} {pointer : String} {cause : EntryError}
    (h : HasVerdict place item (.rejected (.container pointer cause))) :
    pointer = place.encode ∧ ∃ fields, item = .obj fields := by
  cases h <;> exact ⟨rfl, _, rfl⟩

/-! ## Collections -/

/-- **Every pointer of a collection leads to what it was recorded for.** That of an image leads to
the text that the image was read from, and without its last token to the container of its name; no
pointer of an image begins with that of another one. That of a container with a field that cannot
be read leads to this container. -/
theorem collect_sources (document : Json) (kind : String) :
    (∀ list name image, (list, name, image) ∈ (collect document kind).inventory.entries →
      ∃ index text fields,
        image.pointer = (containerPlace kind list index).encode ++ "/image" ∧
        document.resolve? image.pointer = some (.str text) ∧
        Image.parseAt text image.pointer = .ok image ∧
        document.resolve? (containerPlace kind list index).encode = some (.obj fields) ∧
        Fields.get? "name" fields = some (.str name)) ∧
    (collect document kind).inventory.entries.Pairwise (fun first second =>
      first.2.2.pointer ≠ second.2.2.pointer ∧
        ¬ first.2.2.pointer.toList <+: second.2.2.pointer.toList ∧
        ¬ second.2.2.pointer.toList <+: first.2.2.pointer.toList) ∧
    ∀ pointer cause, Rejection.container pointer cause ∈ (collect document kind).rejections →
      ∃ list index fields, pointer = (containerPlace kind list index).encode ∧
        document.resolve? pointer = some (.obj fields) ∧
        HasVerdict (containerPlace kind list index) (.obj fields)
          (.rejected (.container pointer cause)) := by
  refine ⟨fun _ _ _ => exists_source_of_mem_entries, ?_, ?_⟩
  · apply (pairwise_pointers document kind).imp
    rintro first second ⟨hleads, hleads'⟩
    refine ⟨?_, hleads, hleads'⟩
    intro heq
    exact hleads (heq ▸ List.prefix_rfl)
  · intro pointer cause hmem
    obtain ⟨list, index, item, hitem, hverdict⟩ := mem_rejections_collect_iff.1 hmem
    obtain ⟨rfl, fields, rfl⟩ := exists_fields_of_hasVerdict hverdict
    refine ⟨list, index, fields, rfl, ?_, hverdict⟩
    rw [Json.resolve?_encode, at?_containerPlace hitem]

end WorkloadImages

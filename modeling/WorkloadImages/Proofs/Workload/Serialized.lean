import WorkloadImages.Proofs.Json.ReadBack
import WorkloadImages.Workload.Serialized

/-!
# Serialized images and inventories read back

An image and an inventory are read back from their JSON text as they were. What is left out of a
record is what its reader fills in: an empty text, and an empty list of images.

## Main definitions

* `Image.fields`, `Inventory.fields`: the fields of a record that are written

## Main results

* `Json.recordValues?_rawOf`: the values of a record that was written
* `Image.read?_compact`: an image is read back
* `read?_compact_serialized`: and so is an inventory, which has the same patches then
-/

namespace WorkloadImages

/-! ## Records -/

namespace Json

theorem keyed?_rawFields (fields : Fields Json) :
    keyed? (rawFields fields) = some (fields.mapValues rawOf) := by
  unfold keyed?
  induction fields with
  | nil => rfl
  | cons field fields ih =>
    obtain ⟨key, value⟩ := field
    rw [rawFields, List.mapM_cons, ih, rawField]
    simp only [textOf?_map_pieceOf]
    rfl

/-- **The values of a record that was written** are those of its fields, if they come in the order
of the names, each once at most. -/
theorem recordValues?_rawOf {names : List String} {fields : Fields Json} (hnames : names.Nodup)
    (hkeys : (fields.map (·.1)).Sublist names) :
    recordValues? names (rawOf (.obj fields)) =
      some (names.map fun name => (Fields.get? name fields).map rawOf) := by
  have hmap : (fields.mapValues rawOf).map (·.1) = fields.map (·.1) := by
    simp [Fields.mapValues]
  -- No field is passed over, and none occurs twice.
  have hknown : (fields.mapValues rawOf).filter (fun field => names.contains field.1) =
      fields.mapValues rawOf := by
    rw [List.filter_eq_self]
    intro field hfield
    have hkey := List.mem_map_of_mem (f := (·.1)) hfield
    rw [hmap] at hkey
    exact List.contains_iff_mem.2 (hkeys.subset hkey)
  have hnodup : ((fields.mapValues rawOf).map (·.1)).Nodup := by
    rw [hmap]
    exact hnames.sublist hkeys
  have hrecord : recordFields? names (rawFields fields) = some (fields.mapValues rawOf) := by
    unfold recordFields?
    rw [keyed?_rawFields, Option.bind_eq_bind, Option.bind_some]
    simp only [hknown, if_pos hnodup]
  rw [rawOf, recordValues?, hrecord, Option.bind_eq_bind, Option.bind_some]
  exact congrArg some (List.map_congr_left fun name _ => Fields.get?_mapValues rawOf name fields)

theorem read?_compact (value : Json) : Raw.read? value.compact.toList = some (rawOf value) := by
  rw [compact, String.toList_ofList, Raw.read?_write]

end Json

/-! ## Images -/

namespace Image

/-- The fields of an image that are written. -/
def fields (image : Image) : Fields Json :=
  optionalField "registry" image.registry ++
    [("name", .str image.name), ("path", .str image.path)] ++
    optionalField "tag" image.tag ++ optionalField "digest" image.digest ++
    optionalField "jsonPath" image.pointer

theorem toJson_eq (image : Image) : image.toJson = .obj image.fields := rfl

theorem map_fst_optionalField (key text : String) :
    ((optionalField key text).map (·.1)).Sublist [key] := by
  unfold optionalField
  split
  · exact List.nil_sublist [key]
  · exact List.Sublist.refl [key]

theorem get?_optionalField (name key text : String) :
    Fields.get? name (optionalField key text) =
      if key = name then (if text = "" then none else some (.str text)) else none := by
  unfold optionalField
  by_cases hempty : text = "" <;> simp [hempty, Fields.get?]

theorem text?_rawOf (text : String) : (Json.rawOf (.str text)).text? = some text :=
  Json.textOf?_map_pieceOf text

/-- A field that is left out is filled in with the text that it was left out for. -/
theorem optionalText?_map_rawOf (text : String) :
    optionalText? ((if text = "" then none else some (Json.str text)).map Json.rawOf) =
      some text := by
  split
  · next hempty =>
    rw [hempty]
    rfl
  · exact text?_rawOf text

/-- The fields that are written come in the order of the names. -/
theorem map_fst_fields (image : Image) : (image.fields.map (·.1)).Sublist fieldNames := by
  unfold fields
  simp only [List.map_append]
  exact ((((map_fst_optionalField _ _).append (List.Sublist.refl ["name", "path"])).append
    (map_fst_optionalField _ _)).append (map_fst_optionalField _ _)).append
    (map_fst_optionalField _ _)

theorem ofRaw?_rawOf (image : Image) : ofRaw? (Json.rawOf image.toJson) = some image := by
  have hvalues := Json.recordValues?_rawOf (by decide) image.map_fst_fields
  rw [toJson_eq, ofRaw?, hvalues]
  -- Every name finds the field that was written under it, or none where that was left out.
  simp only [fieldNames, List.map_cons, List.map_nil, fields, Fields.get?_append,
    get?_optionalField, Fields.get?]
  simp [optionalText?_map_rawOf, text?_rawOf]

/-- **An image is read back** from its JSON text. -/
theorem read?_compact (image : Image) : read? image.toJson.compact = some image := by
  rw [read?, Json.read?_compact, Option.bind_some, ofRaw?_rawOf]

end Image

/-! ## Inventories -/

namespace Inventory

/-- The fields of an inventory that are written. -/
def fields (inventory : Inventory) : Fields Json :=
  (if inventory.init.isEmpty then []
    else [(ContainerList.init.field, imagesToJson inventory.init)]) ++
  [(ContainerList.main.field, imagesToJson inventory.main),
    (ContainerList.ephemeral.field, imagesToJson inventory.ephemeral)]

theorem toJson_eq (inventory : Inventory) : inventory.toJson = .obj inventory.fields := rfl

theorem mapM_ofRaw?_rawOf (entries : Fields Image) :
    (Fields.mapValues Json.rawOf (entries.mapValues Image.toJson)).mapM
      (fun (name, raw) => (Image.ofRaw? raw).map (name, ·)) = some entries := by
  induction entries with
  | nil => rfl
  | cons entry entries ih =>
    obtain ⟨name, image⟩ := entry
    unfold Fields.mapValues at ih ⊢
    rw [List.map_cons, List.map_cons, List.mapM_cons, ih]
    simp only [Image.ofRaw?_rawOf]
    rfl

/-- The images of a list are read back, under whatever names. -/
theorem imagesOfRaw?_rawOf (images : Dict Image) :
    imagesOfRaw? (Json.rawOf (imagesToJson images)) = some images := by
  have hobject : imagesToJson images = .obj (images.entries.mapValues Image.toJson) := rfl
  rw [hobject, Json.rawOf, imagesOfRaw?, Json.keyed?_rawFields, Option.bind_eq_bind,
    Option.bind_some, mapM_ofRaw?_rawOf, Option.bind_eq_bind, Option.bind_some,
    Dict.ofList_entries]
  rfl

/-- A list that is left out is read as the empty one. -/
theorem optionalImages?_map_rawOf (images : Dict Image) :
    optionalImages? ((if images.isEmpty then none
      else some (imagesToJson images)).map Json.rawOf) = some images := by
  split
  · next hempty =>
    rw [Dict.eq_empty_of_isEmpty hempty]
    rfl
  · exact imagesOfRaw?_rawOf images

theorem optionalImages?_rawOf (images : Dict Image) :
    optionalImages? (some (Json.rawOf (imagesToJson images))) = some images :=
  imagesOfRaw?_rawOf images

/-- The lists that are written come in the order of the names. -/
theorem map_fst_fields (inventory : Inventory) :
    (inventory.fields.map (·.1)).Sublist fieldNames := by
  unfold fields
  split
  · exact List.sublist_cons_self _ _
  · exact List.Sublist.refl _

theorem ofRaw?_rawOf (inventory : Inventory) :
    ofRaw? (Json.rawOf inventory.toJson) = some inventory := by
  have hvalues := Json.recordValues?_rawOf (by decide) inventory.map_fst_fields
  have hinit : Fields.get? ContainerList.init.field inventory.fields =
      if inventory.init.isEmpty then none else some (imagesToJson inventory.init) := by
    unfold fields
    split <;> rfl
  have hmain : Fields.get? ContainerList.main.field inventory.fields =
      some (imagesToJson inventory.main) := by
    unfold fields
    split <;> rfl
  have hephemeral : Fields.get? ContainerList.ephemeral.field inventory.fields =
      some (imagesToJson inventory.ephemeral) := by
    unfold fields
    split <;> rfl
  rw [toJson_eq, ofRaw?, hvalues]
  simp only [fieldNames, ContainerList.all, List.map_cons, List.map_nil, hinit, hmain, hephemeral,
    optionalImages?_map_rawOf, Option.map_some, optionalImages?_rawOf]
  rfl

/-- **An inventory is read back** from its JSON text. -/
theorem read?_compact (inventory : Inventory) :
    read? inventory.toJson.compact = some inventory := by
  rw [read?, Json.read?_compact, Option.bind_some, ofRaw?_rawOf]

end Inventory

/-- **What is serialized is read back**: an image, whatever its texts are, and an inventory,
whatever the names in it are. So the operations of an inventory, and what they make of a document,
are the same after it has been written and read. -/
theorem read?_compact_serialized :
    (∀ image : Image, Image.read? image.toJson.compact = some image) ∧
      ∀ inventory : Inventory,
        Inventory.read? inventory.toJson.compact = some inventory ∧
        (Inventory.read? inventory.toJson.compact).map Inventory.patches =
          some inventory.patches ∧
        ∀ bytes, (Inventory.read? inventory.toJson.compact).map (·.canonicalizeBytes bytes) =
          some (inventory.canonicalizeBytes bytes) := by
  refine ⟨Image.read?_compact, fun inventory => ?_⟩
  rw [inventory.read?_compact]
  exact ⟨rfl, rfl, fun _ => rfl⟩

end WorkloadImages

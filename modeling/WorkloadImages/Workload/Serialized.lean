import WorkloadImages.Json.Printer
import WorkloadImages.Json.Reader
import WorkloadImages.Workload.Inventory

/-!
# Serialized images and inventories

Images and inventories as JSON. What is empty is left out where it need not be there, and is
filled in when it is read. A record may also be an array of its fields in order. Fields of other
names are passed over, whatever they hold; a field may not occur twice.

## Main definitions

* `Image.toJson`, `Image.read?`: images as JSON text
* `Inventory.toJson`, `Inventory.read?`: inventories as JSON text
-/

namespace WorkloadImages

namespace Json

/-- The fields of an object with their keys read; none when a key has no meaning. -/
def keyed? : List (List Piece × Raw) → Option (List (String × Raw)) :=
  List.mapM fun (key, value) => (textOf? key).map (·, value)

/-- The fields with the given names, none of which may occur twice. -/
def recordFields? (names : List String) (fields : List (List Piece × Raw)) :
    Option (List (String × Raw)) := do
  let known := (← keyed? fields).filter fun (key, _) => names.contains key
  -- Only a field with one of the names may not be repeated.
  if (known.map (·.1)).Nodup then some known else none

/-- The values of a record with the given fields: of an object by name, of an array by position.
A field without a value has `none`. -/
def recordValues? (names : List String) : Raw → Option (List (Option Raw))
  | .object fields => do
    let known ← recordFields? names fields
    return names.map fun name => Fields.get? name known
  | .array items =>
    if items.length ≤ names.length then
      some (items.map some ++ List.replicate (names.length - items.length) none)
    else none
  | _ => none

/-- The text of a string. -/
def Raw.text? : Raw → Option String
  | .string pieces => textOf? pieces
  | _ => none

end Json

open Json (Raw)

/-! ## Images -/

namespace Image

/-- The names of the fields of an image, in order. -/
def fieldNames : List String := ["registry", "name", "path", "tag", "digest", "jsonPath"]

/-- A field that is left out when its text is empty. -/
def optionalField (key text : String) : List (String × Json) :=
  if text.isEmpty then [] else [(key, .str text)]

/-- The image as a record. -/
def toJson (image : Image) : Json :=
  .obj (optionalField "registry" image.registry ++
    [("name", .str image.name), ("path", .str image.path)] ++
    optionalField "tag" image.tag ++ optionalField "digest" image.digest ++
    optionalField "jsonPath" image.pointer)

/-- The text of a field that is empty when it is left out. -/
def optionalText? : Option Raw → Option String
  | none => some ""
  | some raw => raw.text?

/-- The image that a record describes. Its name and path must be there. -/
def ofRaw? (raw : Raw) : Option Image :=
  match Json.recordValues? fieldNames raw with
  | some [registry, some name, some path, tag, digest, pointer] => do
    return ⟨← optionalText? registry, ← name.text?, ← path.text?, ← optionalText? tag,
      ← optionalText? digest, ← optionalText? pointer⟩
  | _ => none

/-- The image that a JSON text describes. -/
def read? (text : String) : Option Image := (Raw.read? text.toList).bind ofRaw?

end Image

/-! ## Inventories -/

namespace Inventory

/-- The names of the fields of an inventory, in order. -/
def fieldNames : List String := ContainerList.all.map ContainerList.field

/-- The images of a list, by container name. -/
def imagesToJson (images : Dict Image) : Json :=
  .obj (images.entries.map fun (name, image) => (name, image.toJson))

/-- The inventory as a record. The first list is left out when it is empty. -/
def toJson (inventory : Inventory) : Json :=
  .obj ((if inventory.init.isEmpty then []
      else [(ContainerList.init.field, imagesToJson inventory.init)]) ++
    [(ContainerList.main.field, imagesToJson inventory.main),
      (ContainerList.ephemeral.field, imagesToJson inventory.ephemeral)])

/-- The images of a list, by container name; a later image wins. -/
def imagesOfRaw? : Raw → Option (Dict Image)
  | .object fields => do
    let images ← (← Json.keyed? fields).mapM fun (name, raw) => (Image.ofRaw? raw).map (name, ·)
    return .ofList images
  | _ => none

/-- The images of a list that is empty when it is left out. -/
def optionalImages? : Option Raw → Option (Dict Image)
  | none => some ∅
  | some raw => imagesOfRaw? raw

/-- The inventory that a record describes. -/
def ofRaw? (raw : Raw) : Option Inventory :=
  match Json.recordValues? fieldNames raw with
  | some [init, main, ephemeral] => do
    return ⟨← optionalImages? init, ← optionalImages? main, ← optionalImages? ephemeral⟩
  | _ => none

/-- The inventory that a JSON text describes. -/
def read? (text : String) : Option Inventory := (Raw.read? text.toList).bind ofRaw?

end Inventory

end WorkloadImages

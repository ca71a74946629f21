import WorkloadImages.Dict
import WorkloadImages.Patch.Apply
import WorkloadImages.Reference.Image
import WorkloadImages.Workload.Kind

/-!
# Inventories

The images of a workload by the list and the name of the container that runs each.

## Main definitions

* `Inventory`, `Inventory.ofLists`: the images; a later container wins over one with its name
* `Inventory.patches`: the operations that write every image in full to where it was read
-/

namespace WorkloadImages

/-- The images of a workload, by container name in each list of containers. -/
structure Inventory where
  /-- The images of the containers that run first. -/
  init : Dict Image
  /-- The images of the containers that run. -/
  main : Dict Image
  /-- The images of the containers added while the others run. -/
  ephemeral : Dict Image
  deriving DecidableEq

namespace Inventory

/-- No images. -/
def empty : Inventory := ⟨∅, ∅, ∅⟩

instance : EmptyCollection Inventory := ⟨empty⟩

instance : Inhabited Inventory := ⟨empty⟩

/-- The inventory of the named images of each list. -/
def ofLists (images : ContainerList → List (String × Image)) : Inventory where
  init := .ofList (images .init)
  main := .ofList (images .main)
  ephemeral := .ofList (images .ephemeral)

/-- The images of a list. -/
def list (inventory : Inventory) : ContainerList → Dict Image
  | .init => inventory.init
  | .main => inventory.main
  | .ephemeral => inventory.ephemeral

/-- The number of images. -/
def size (inventory : Inventory) : Nat :=
  inventory.init.size + inventory.main.size + inventory.ephemeral.size

/-- Whether there are no images. -/
def isEmpty (inventory : Inventory) : Bool := inventory.size == 0

/-- The images with their lists and container names. -/
def entries (inventory : Inventory) : List (ContainerList × String × Image) :=
  ContainerList.all.flatMap fun list =>
    (inventory.list list).entries.map fun (name, image) => (list, name, image)

/-! ## Patches -/

/-- The operation that writes an image in full to where it was read. -/
def patchOf (image : Image) : PatchOp := ⟨Action.replace.word, image.pointer, image.canonical⟩

/-- The operations that write every image in full to where it was read. -/
def patches (inventory : Inventory) : List PatchOp :=
  ContainerList.patchOrder.flatMap fun list => (inventory.list list).values.map patchOf

/-- The JSON text with every image written in full. -/
def canonicalizeText (inventory : Inventory) (text : String) : Except PatchError String :=
  Patch.applyToText inventory.patches text

/-- The bytes of a JSON text with every image written in full. -/
def canonicalizeBytes (inventory : Inventory) (bytes : ByteArray) :
    Except PatchError ByteArray :=
  Patch.applyToBytes inventory.patches bytes

end Inventory

end WorkloadImages

import WorkloadImages.Workload.Inventory

/-!
# Collecting images

The images of a document are read from the containers of its pod spec. A container that cannot be
read is rejected, and the others are collected all the same. An entry that is no object is passed
over.

## Main definitions

* `EntryError`, `Rejection`: why a container is rejected
* `readContainer`: the name and the image of a container
* `Collection`, `collect`, `collectDocument`: the images and the rejections of a document
-/

namespace WorkloadImages

/-! ## Rejections -/

/-- Why a field of a container cannot be read. -/
inductive EntryError where
  /-- There is no such field. -/
  | missing (field : String)
  /-- The field is no text. -/
  | notText (field : String)
  deriving Repr, DecidableEq

/-- The wording of an error. -/
def EntryError.message : EntryError → String
  | missing field => "missing required field `" ++ field ++ "`"
  | notText field => "field `" ++ field ++ "` must be a string"

/-- Why a container is rejected. -/
inductive Rejection where
  /-- The text of its image is no reference. -/
  | image (pointer reference : String) (cause : ReferenceError)
  /-- A field cannot be read. -/
  | container (pointer : String) (cause : EntryError)
  deriving Repr, DecidableEq

namespace Rejection

/-- The pointer to the field or container that is at fault. -/
def pointer : Rejection → String
  | image pointer _ _ => pointer
  | container pointer _ => pointer

/-- The wording of a rejection. -/
def message : Rejection → String
  | image pointer reference cause =>
    pointer ++ ": bad image: " ++ reference ++ ": " ++ cause.message
  | container pointer cause => pointer ++ ": invalid container: " ++ cause.message

/-- The wording of several rejections. -/
def messages (rejections : List Rejection) : String :=
  ";".intercalate (rejections.map message)

end Rejection

/-! ## Containers -/

/-- A field that must be there and be a text. -/
def requiredText (fields : Fields Json) (field : String) : Except EntryError String :=
  match Fields.get? field fields with
  | none => .error (.missing field)
  | some value =>
    match value.asString? with
    | some text => .ok text
    | none => .error (.notText field)

/-- A field that must be a text if it is there. -/
def optionalText (fields : Fields Json) (field : String) : Except EntryError (Option String) :=
  match Fields.get? field fields with
  | none => .ok none
  | some value =>
    match value.asString? with
    | some text => .ok (some text)
    | none => .error (.notText field)

/-- The name and the text of the image of a container; without an image the text is empty. -/
def containerTexts (fields : Fields Json) : Except EntryError (String × String) := do
  let name ← requiredText fields "name"
  let image ← optionalText fields "image"
  return (name, image.getD "")

/-- The name and the image of the container at a pointer, or why it is rejected. -/
def readContainer (pointer : Pointer) (fields : Fields Json) :
    Except Rejection (String × Image) :=
  match containerTexts fields with
  | .error cause => .error (.container pointer.encode cause)
  | .ok (name, text) =>
    let place := (pointer ++ ["image"]).encode
    match Image.parseAt text place with
    | .ok image => .ok (name, image)
    | .error cause => .error (.image place (Reference.ensureDomain text) cause)

/-! ## Documents -/

/-- The images of a document, and the containers that were rejected, in the order of reading. -/
structure Collection where
  /-- The images. -/
  inventory : Inventory
  /-- The rejected containers. -/
  rejections : List Rejection
  deriving DecidableEq

namespace Collection

/-- Nothing collected and nothing rejected. -/
def empty : Collection := ⟨∅, []⟩

instance : EmptyCollection Collection := ⟨empty⟩

instance : Inhabited Collection := ⟨empty⟩

/-- The images, if no container was rejected. -/
def toExcept (collection : Collection) : Except (List Rejection) Inventory :=
  if collection.rejections.isEmpty then .ok collection.inventory
  else .error collection.rejections

end Collection

/-- What is read from each object among the items of a list at a path. -/
def readList (document : Json) (path : List String) : List (Except Rejection (String × Image)) :=
  ((document.itemsAt? path).getD []).zipIdx.filterMap fun (item, index) =>
    -- The index counts all items, also those that are no objects.
    item.asObject?.map (readContainer (path ++ [toString index]))

/-- The results of a list that were read. -/
def accepted (results : List (Except Rejection (String × Image))) : List (String × Image) :=
  results.filterMap Except.toOption

/-- The results of a list that were rejected. -/
def rejected (results : List (Except Rejection (String × Image))) : List Rejection :=
  results.filterMap fun
    | .ok _ => none
    | .error rejection => some rejection

/-- The images of the pod spec at a path. -/
def collectAt (document : Json) (path : List String) : Collection where
  inventory := .ofLists fun list => accepted (readList document (path ++ [list.field]))
  rejections := ContainerList.all.flatMap fun list =>
    rejected (readList document (path ++ [list.field]))

/-- The images of a document of a kind; a kind without a pod spec has none. -/
def collect (document : Json) (kind : String) : Collection :=
  match Workload.podSpecPath kind with
  | [] => ∅
  | path => collectAt document path

/-- The images of a document of the kind that it says it is of. -/
def collectDocument (document : Json) : Collection :=
  collect document (Workload.kindOf document)

end WorkloadImages

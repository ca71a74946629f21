import WorkloadImages.Reference.Basic
import WorkloadImages.Reference.Domain

/-!
# Images

An image is a reference in full: the registry is named, and a tag or a digest is given. It also
keeps the place in a manifest that it was read from.

## Main definitions

* `Image.parseAt`, `Image.parse`: the image that a text refers to
* `Image.canonical`: the text that identifies the image
* `Image.tagged`: the same text with both tag and digest
-/

namespace WorkloadImages

/-- A fully qualified image reference. -/
structure Image where
  /-- The address of the registry. -/
  registry : String
  /-- The last segment of the path. -/
  name : String
  /-- The path of the repository. -/
  path : String
  /-- The tag, empty when there is none. -/
  tag : String
  /-- The digest, empty when there is none. -/
  digest : String
  /-- The pointer to the manifest field that the image was read from. -/
  pointer : String
  deriving Repr, DecidableEq

namespace Image

/-- The tag of a reference that gives neither tag nor digest. -/
def defaultTag : String := "latest"

/-- The last segment of a path. -/
def lastSegment (path : List Char) : List Char :=
  (Text.pieces '/' path).getLastD []

/-- The image of a reference with its registry named. -/
def ofReference (reference : Reference) (pointer : String) : Image where
  registry := reference.domain
  name := String.ofList (lastSegment reference.path.toList)
  path := reference.path
  tag :=
    if reference.tag.isNone && reference.digest.isNone then defaultTag
    else reference.tag.getD ""
  digest := reference.digest.getD ""
  pointer := pointer

/-- The image that a text read from the field at `pointer` refers to. -/
def parseAt (text pointer : String) : Except ReferenceError Image :=
  (Reference.parse (Reference.ensureDomain text)).map (ofReference · pointer)

/-- The image that a text refers to. -/
def parse (text : String) : Except ReferenceError Image := parseAt text ""

/-- Whether the image is given by digest. -/
def hasDigest (image : Image) : Bool := !image.digest.isEmpty

/-- The text that identifies the image: its digest if it has one, else its tag. -/
def canonical (image : Image) : String :=
  if image.hasDigest then image.registry ++ "/" ++ image.path ++ "@" ++ image.digest
  else image.registry ++ "/" ++ image.path ++ ":" ++ image.tag

/-- The text with both tag and digest where the image has both, else the canonical text. -/
def tagged (image : Image) : String :=
  if image.hasDigest && !image.tag.isEmpty then
    image.registry ++ "/" ++ image.path ++ ":" ++ image.tag ++ "@" ++ image.digest
  else image.canonical

end Image

end WorkloadImages

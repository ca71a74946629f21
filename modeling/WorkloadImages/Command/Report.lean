import WorkloadImages.Command.Arguments
import WorkloadImages.Workload.Collection
import WorkloadImages.Workload.Serialized
import WorkloadImages.Yaml.Printer

/-!
# Reports

The results of the commands as text: lines for people, or JSON and YAML for programs.

## Main definitions

* `Report.render`: a value as JSON or YAML
* `Report.reference`: the parts of one reference
* `Report.Listing`: the images of one document
* `Report.manifest`: documents as a manifest
-/

namespace WorkloadImages.Report

/-- Lines of text, each with a line break at its end. -/
def lines (ls : List String) : String := String.join (ls.map (· ++ "\n"))

/-- A value as text; lines for people have no form of their own and are JSON. -/
def render (format : Format) (value : Json) : String :=
  match format with
  | .yaml => Yaml.print value
  | .json => value.pretty
  | .text => value.pretty

/-! ## References -/

/-- The parts of an image that a text refers to, for people. -/
def reference (text : String) (image : Image) : List String :=
  ["✓ " ++ text,
    "  canonical: " ++ image.canonical,
    "  registry:  " ++ image.registry,
    "  path:      " ++ image.path,
    "  name:      " ++ image.name] ++
  (if image.tag.isEmpty then [] else ["  tag:       " ++ image.tag]) ++
  (if image.digest.isEmpty then [] else ["  digest:    " ++ image.digest])

/-- A text that is no reference, for people. -/
def badReference (text : String) (cause : ReferenceError) : String :=
  "✗ " ++ text ++ ": " ++ cause.message

/-! ## Workloads -/

/-- The images of one document. -/
structure Listing where
  /-- The kind of the document. -/
  kind : String
  /-- The name of the document. -/
  name : String
  /-- The images. -/
  images : Inventory

namespace Listing

/-- The title of a document of a kind and name. -/
def titleOf (kind name : String) : String := kind ++ "/" ++ name

/-- The images of a document, for people. -/
def lines (listing : Listing) : List String :=
  ("→ " ++ titleOf listing.kind listing.name) ::
    if listing.images.isEmpty then ["  no images"]
    else listing.images.entries.flatMap fun (list, name, image) =>
      ["  " ++ list.field ++ "/" ++ name ++ " → " ++ image.canonical, "      " ++ image.pointer]

/-- The images of a document as a record. -/
def toJson (listing : Listing) : Json :=
  .obj [("kind", .str listing.kind), ("name", .str listing.name),
    ("images", listing.images.toJson)]

end Listing

/-- Warnings of rejected containers, with the place they come from. -/
def warnings (place : String) (rejections : List Rejection) : List String :=
  rejections.map fun rejection => "⚠ " ++ place ++ ": " ++ rejection.message

/-! ## Manifests -/

/-- Documents as one: a single one as it is, others as the items of a list. -/
def listed : List Json → Json
  | [document] => document
  | documents =>
    .obj [("apiVersion", .str "v1"), ("items", .arr documents), ("kind", .str "List")]

/-- Documents as a manifest: a stream as YAML, one document as JSON. -/
def manifest (format : Format) (documents : List Json) : String :=
  match format with
  | .json => (listed documents).pretty ++ "\n"
  | .yaml => "---\n".intercalate (documents.map Yaml.print)
  | .text => "---\n".intercalate (documents.map Yaml.print)

end WorkloadImages.Report

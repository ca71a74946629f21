import WorkloadImages.Json.Reader
import WorkloadImages.Text.Blank
import WorkloadImages.Yaml.Document

/-!
# Manifests

A manifest is a text that holds documents: one as JSON, or a stream of them as YAML. Which of the
two it is shows at its first character that is not blank. Empty documents of a stream are left
out, and every other document has to be an object.

## Main definitions

* `Manifest.isJson`: whether a text is taken for JSON
* `Manifest.read`: the documents of a text, or why it is no manifest
-/

namespace WorkloadImages

/-- Why a text is no manifest. -/
inductive ManifestError where
  /-- It is taken for JSON and is none. -/
  | json (cause : Json.ReadError)
  /-- It is taken for YAML and is none. -/
  | yaml
  /-- The document with this index is no object. -/
  | notAnObject (index : Nat)
  deriving Repr, DecidableEq

namespace ManifestError

/-- The wording of an error, without what the reader of the format has to say. -/
def headline : ManifestError → String
  | json _ => "failed to parse JSON manifest: "
  | yaml => "failed to parse YAML manifest: "
  | notAnObject index => s!"document {index} is not an object"

/-- What the reader of the format has to say, if it is asked. -/
def detail? : ManifestError → Option String
  | json cause => some cause.message
  | yaml => some "malformed stream"
  | notAnObject _ => none

end ManifestError

namespace Manifest

/-- Whether a text is taken for JSON: an opening brace is its first character that is not blank. -/
def isJson (text : List Char) : Bool := (Text.trimStart text).head? = some '\x7b'

/-- The documents of a text as JSON or YAML, whatever they are. -/
def readValues (text : List Char) : Except ManifestError (List Json) :=
  if isJson text then
    match Json.read text with
    | .ok document => .ok [document]
    | .error cause => .error (.json cause)
  else
    match Yaml.Document.readAll? text with
    -- An index counts the documents that are left.
    | some documents => .ok (documents.filter fun document => !document.isNull)
    | none => .error .yaml

/-- The documents of a text, all of them objects, or why it is no manifest. -/
def read (text : List Char) : Except ManifestError (List Json) :=
  match readValues text with
  | .error cause => .error cause
  | .ok documents =>
    match documents.findIdx? fun document => !document.isObject with
    | some index => .error (.notAnObject index)
    | none => .ok documents

end Manifest

end WorkloadImages

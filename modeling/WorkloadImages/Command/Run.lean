import WorkloadImages.Command.Outcome
import WorkloadImages.Command.Report

/-!
# Runs of the commands

What each command comes to, given its arguments and the text of its source.

## Main definitions

* `Run.parse`, `Run.images`, `Run.canonicalize`: the commands
* `Command.source?`, `Command.run`: a command, given what is read from its source
-/

namespace WorkloadImages

namespace Run

/-! ## References -/

/-- The parts of references; those that are none are counted. -/
def parse (references : List String) (format : Format) : Outcome :=
  let results := references.map fun text => (text, Image.parse text)
  let images := results.filterMap fun (_, result) => result.toOption
  let bad := results.filterMap fun (text, result) =>
    match result with
    | .ok _ => none
    | .error cause => some (Report.badReference text cause)
  { output :=
      match format with
      | .text =>
        Report.lines <| results.flatMap fun (text, result) =>
          match result with
          | .ok image => Report.reference text image
          | .error _ => []
      | format => Report.render format (.arr (images.map Image.toJson)) ++ "\n"
    warnings := bad
    failure := if bad.isEmpty then none else some (.references bad.length references.length) }

/-! ## Images -/

/-- The name of a document that has none. -/
def unnamed : String := "<unnamed>"

/-- The name that a document gives in its metadata. -/
def nameOf (document : Json) : String :=
  match document.at? ["metadata", "name"] with
  | some name => name.asString?.getD unnamed
  | none => unnamed

/-- Whether documents of a kind have a pod spec. -/
def hasPodSpec (document : Json) : Bool :=
  !(Workload.podSpecPath (Workload.kindOf document)).isEmpty

/-- The title of a document. -/
def titleOf (document : Json) : String :=
  Report.Listing.titleOf (Workload.kindOf document) (nameOf document)

/-- The images of the documents that have a pod spec. When `strict`, no container may be
rejected. -/
def images (documents : List Json) (format : Format) (strict : Bool) : Outcome :=
  let workloads := (documents.filter hasPodSpec).map fun document =>
    (document, collectDocument document)
  let warnings := workloads.flatMap fun (document, collection) =>
    Report.warnings (titleOf document) collection.rejections
  let rejections := workloads.flatMap fun (_, collection) => collection.rejections
  -- Rejections are shown as warnings first, and once more in the failure.
  if strict && !rejections.isEmpty then .failed (.extraction rejections) warnings
  else
    let reports := workloads.map fun (document, collection) =>
      (⟨Workload.kindOf document, nameOf document, collection.inventory⟩ : Report.Listing)
    .success
      (match format with
        | .text => Report.lines (reports.flatMap Report.Listing.lines)
        | format => Report.render format (.arr (reports.map Report.Listing.toJson)) ++ "\n")
      warnings

/-! ## Manifests with images in full -/

/-- A document with its images in full: it is written, patched and read again. -/
def qualified (document : Json) (inventory : Inventory) : Except Failure Json :=
  match inventory.canonicalizeText document.compact with
  | .error cause => .error (.patch cause)
  | .ok text =>
    match Json.read text.toList with
    | .error cause => .error (.output cause)
    | .ok document => .ok document

/-- Documents with their images in full, and the warnings up to the first failure. When `strict`,
no container may be rejected. -/
def qualifyAll (place : String) (strict : Bool) :
    List Json → List String × Except Failure (List Json)
  | [] => ([], .ok [])
  | document :: rest =>
    let collection := collectDocument document
    if strict && !collection.rejections.isEmpty then
      ([], .error (.extraction collection.rejections))
    else
      let warnings := Report.warnings place collection.rejections
      match qualified document collection.inventory with
      | .error failure => (warnings, .error failure)
      | .ok document =>
        let (more, result) := qualifyAll place strict rest
        (warnings ++ more, result.map (document :: ·))

/-- A manifest with its images in full. -/
def canonicalize (place : String) (documents : List Json) (format : Format) (strict : Bool) :
    Outcome :=
  match qualifyAll place strict documents with
  | (warnings, .error failure) => .failed failure warnings
  | (warnings, .ok documents) => .success (Report.manifest format documents) warnings

/-- The format of a text. -/
def formatOf (text : String) : Format :=
  if Manifest.isJson text.toList then .json else .yaml

/-! ## Sources -/

/-- What becomes of a source: its documents are used if it can be read as a manifest. -/
def withDocuments (source : Source) (content : Except InputError String)
    (use : String → List Json → Outcome) : Outcome :=
  match content with
  | .error cause => .failed (.input cause) []
  | .ok text =>
    match Manifest.read text.toList with
    | .error cause => .failed (.manifest source.name cause) []
    | .ok documents => use text documents

/-- The number of the version. -/
def versionNumber : String := "0.1.0"

/-- How the program is used, in words of this library: the text that the command line itself prints
on being asked for help is put together by its argument parser, and is not modelled. -/
def usage : List String :=
  ["Extract and canonicalize container images in Kubernetes manifests",
    "",
    "Usage: kanon [--debug] <COMMAND>",
    "",
    "Commands:",
    "  parse [-o text|json|yaml] <REFERENCES>...",
    "  images [-o text|json|yaml] [--strict] [FILE]",
    "  canonicalize [-o text|json|yaml] [--strict] [FILE]"]

end Run

namespace Command

/-- The source that a command reads. -/
def source? : Command → Option Source
  | images source .. => some source
  | canonicalize source .. => some source
  | _ => none

/-- What a command comes to, given the content of its source. -/
def run (command : Command) (content : Except InputError String) : Outcome :=
  match command with
  | .help => .success (Report.lines Run.usage) []
  | .version name => .success (Report.lines [name ++ " " ++ Run.versionNumber]) []
  | .parse references format => Run.parse references format
  | .images source format strict =>
    Run.withDocuments source content fun _ documents => Run.images documents format strict
  | .canonicalize source format strict =>
    Run.withDocuments source content fun text documents =>
      Run.canonicalize source.name documents (format.getD (Run.formatOf text)) strict

/-- What arguments come to, given what is read from each source. -/
def runArguments (arguments : List String) (content : Source → Except InputError String) :
    Outcome :=
  match ofArguments arguments with
  | .error _ => .failed .usage []
  | .ok command => command.run ((command.source?.map content).getD (.ok ""))

end Command

end WorkloadImages

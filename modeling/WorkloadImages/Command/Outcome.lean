import WorkloadImages.Manifest
import WorkloadImages.Workload.Collection

/-!
# What a run of the program comes to

A run writes lines to the standard output, may warn of what it passed over, and may fail. A failure
has an exit code and a wording.

## Main definitions

* `InputError`: why a manifest cannot be read from its source
* `Failure`: why a run fails
* `Outcome`: what a run comes to
-/

namespace WorkloadImages

/-- Why a source cannot be read. -/
inductive InputError where
  /-- There is no such file. -/
  | notFound
  /-- It is a directory. -/
  | isDirectory
  /-- A part of the path is no directory. -/
  | notADirectory
  /-- It is not in Unicode. -/
  | notUnicode
  /-- Any other cause. -/
  | other (text : String)
  deriving Repr, DecidableEq

/-- The wording of a cause. -/
def InputError.message : InputError → String
  | notFound => "No such file or directory (os error 2)"
  | isDirectory => "Is a directory (os error 21)"
  | notADirectory => "Not a directory (os error 20)"
  | notUnicode => "stream did not contain valid UTF-8"
  | other text => text

/-- Why a run fails. -/
inductive Failure where
  /-- The arguments are not understood. -/
  | usage
  /-- Containers were rejected. -/
  | extraction (rejections : List Rejection)
  /-- Some of the texts are no references. -/
  | references (failed total : Nat)
  /-- Images could not be written back. -/
  | patch (cause : PatchError)
  /-- The source is no manifest. -/
  | manifest (source : String) (cause : ManifestError)
  /-- The source cannot be read. -/
  | input (cause : InputError)
  /-- A document that was written cannot be read again. -/
  | output (cause : Json.ReadError)
  deriving Repr, DecidableEq

namespace Failure

/-- The exit code of a failure. -/
def exitCode : Failure → Nat
  | output _ => 1
  | extraction _ => 2
  | references .. => 2
  | patch _ => 3
  | manifest .. => 4
  | input _ => 5
  | usage => 64

/-- The wording of a failure, up to what the reader of a format has to say. -/
def headline : Failure → String
  | usage => "invalid arguments"
  | extraction rejections => "Image extraction failed: " ++ Rejection.messages rejections
  | references failed total => s!"{failed} of {total} reference(s) failed to parse"
  | patch cause => "Failed to canonicalize images: " ++ cause.message
  | manifest source cause => "Invalid manifest in " ++ source ++ ": " ++ cause.headline
  | input cause => "IO error: " ++ cause.message
  | output cause => "Internal error: failed to serialize output: " ++ cause.message

/-- What the reader of a format has to say. -/
def detail? : Failure → Option String
  | manifest _ cause => cause.detail?
  | _ => none

/-- The wording of a failure. -/
def message (failure : Failure) : String := failure.headline ++ failure.detail?.getD ""

end Failure

/-- What a run comes to. -/
structure Outcome where
  /-- What is written to the standard output. -/
  output : String
  /-- The lines of warning. -/
  warnings : List String
  /-- The failure, if there is one. -/
  failure : Option Failure
  deriving Repr, DecidableEq

namespace Outcome

/-- A run that succeeds. -/
def success (output : String) (warnings : List String) : Outcome := ⟨output, warnings, none⟩

/-- A run that fails before anything is written. -/
def failed (failure : Failure) (warnings : List String) : Outcome := ⟨"", warnings, some failure⟩

/-- The exit code of a run. -/
def exitCode (outcome : Outcome) : Nat := (outcome.failure.map Failure.exitCode).getD 0

end Outcome

end WorkloadImages

import WorkloadImages.Json.Pointer
import WorkloadImages.Json.Printer
import WorkloadImages.Json.Reader

/-!
# Operations of patches

An operation does something at a pointer into a JSON value, with a text as its value. It is given
as texts, and is checked before it is used.

## Main definitions

* `PatchOp`: an operation as it is given
* `Operation`, `Operation.ofOp?`: an operation that has been checked
* `PatchError`: why a patch cannot be applied
-/

namespace WorkloadImages

/-- An operation of a patch as it is given: a word, a pointer as text, and a text value. -/
structure PatchOp where
  /-- The word for what is done. -/
  op : String
  /-- The pointer to where it is done. -/
  path : String
  /-- The value that it is done with. -/
  value : String
  deriving Repr, DecidableEq

/-- What an operation does at its pointer. -/
inductive Action where
  /-- The value there is replaced. -/
  | replace
  /-- A value is put there. -/
  | add
  /-- The value there is taken away. -/
  | remove
  /-- The value there is compared. -/
  | test
  deriving Repr, DecidableEq

/-- The word for an action. -/
def Action.word : Action → String
  | replace => "replace"
  | add => "add"
  | remove => "remove"
  | test => "test"

/-- The action that a word is for. Operations that need a second pointer have no action. -/
def Action.ofWord? (word : String) : Option Action :=
  [replace, add, remove, test].find? (·.word = word)

/-- An operation of a patch. -/
structure Operation where
  /-- What is done. -/
  action : Action
  /-- Where it is done. -/
  pointer : Pointer
  /-- The value that it is done with; removing needs none. -/
  value : String
  deriving Repr, DecidableEq

/-- A list of operations. -/
abbrev Patch := List Operation

/-! ## Errors -/

/-- Why an operation cannot be applied. -/
inductive Refusal where
  /-- The pointer leads nowhere, or no value can be put there. -/
  | invalidPath
  /-- The value is not the expected one. -/
  | mismatch
  deriving Repr, DecidableEq

/-- The wording of a refusal. -/
def Refusal.message : Refusal → String
  | invalidPath => "path is invalid"
  | mismatch => "value did not match"

/-- Why a patch cannot be applied. -/
inductive PatchError where
  /-- The document is no JSON text. -/
  | invalidDocument (cause : Json.ReadError)
  /-- An operation is not one of those known, or has no pointer. -/
  | invalidOperation
  /-- The operation with this index cannot be applied. -/
  | failed (index : Nat) (pointer : Pointer) (cause : Refusal)
  deriving Repr, DecidableEq

/-- The wording of an error. -/
def PatchError.message : PatchError → String
  | invalidDocument cause => "failed to parse document: " ++ cause.message
  | invalidOperation => "invalid patch operations"
  | failed index pointer cause =>
    "failed to apply patch: operation '/" ++ toString index ++ "' failed at path '" ++
      pointer.encode ++ "': " ++ cause.message

/-! ## Checking -/

/-- The operation that is given, if its word and pointer are valid. -/
def Operation.ofOp? (op : PatchOp) : Option Operation :=
  match Action.ofWord? op.op, Pointer.decode? op.path with
  | some action, some pointer => some ⟨action, pointer, op.value⟩
  | _, _ => none

/-- The patch of operations that are all valid. -/
def Patch.ofOps? (ops : List PatchOp) : Option Patch := ops.mapM Operation.ofOp?

/-- The text of an operation: its word, its pointer, and its value if it has one. -/
def Operation.toJson (operation : Operation) : Json :=
  .obj ([("op", .str operation.action.word), ("path", .str operation.pointer.encode)] ++
    if operation.action = .remove then [] else [("value", .str operation.value)])

/-- The text of a patch. -/
def Patch.toJson (patch : Patch) : Json := .arr (patch.map Operation.toJson)

end WorkloadImages

import WorkloadImages.Patch.Operation

/-!
# Applying patches

A patch is applied in order and as a whole: when one operation fails the value stays as it was. All
operations are checked before any is applied.

## Main definitions

* `Json.addAt?`, `Json.removeAt?`: a value with another one put in or taken out
* `Operation.applyTo`, `Patch.apply`: a value after one operation or all of them
* `Patch.applyToText`, `Patch.applyToBytes`: the same on a JSON text
-/

namespace WorkloadImages

namespace Json

/-- A container with a value put where a token says: as a field, or before an item or after the
last one. -/
def insertChild? (token : String) (child : Json) : Json → Option Json
  | obj fields => some (obj (Fields.insert token child fields))
  | arr items =>
    if token = "-" then some (arr (items ++ [child]))
    else match Pointer.index? token with
      | some index =>
        -- The place after the last item is one to put a value at.
        if index ≤ items.length then some (arr (items.insertIdx index child)) else none
      | none => none
  | _ => none

/-- A container without the field or item that a token names. -/
def eraseChild? (token : String) : Json → Option Json
  | obj fields =>
    if (Fields.get? token fields).isSome then some (obj (Fields.erase token fields)) else none
  | arr items =>
    match Pointer.index? token with
    | some index => if index < items.length then some (arr (items.eraseIdx index)) else none
    | none => none
  | _ => none

/-- A value with another one put at a pointer: in place of all of it, or into the container that
the pointer leads to without its last token. -/
def addAt? (pointer : Pointer) (value document : Json) : Option Json :=
  match pointer.getLast? with
  | none => some value
  | some token => modifyAt? (insertChild? token value) pointer.dropLast document

/-- A value without the one that a pointer leads to, which is not all of it. -/
def removeAt? (pointer : Pointer) (document : Json) : Option Json :=
  match pointer.getLast? with
  | none => none
  | some token => modifyAt? (eraseChild? token) pointer.dropLast document

end Json

/-- The document after an operation, if it can be applied. -/
def Operation.applyTo (operation : Operation) (document : Json) : Except Refusal Json :=
  let changed (result : Option Json) : Except Refusal Json :=
    match result with
    | some document => .ok document
    | none => .error .invalidPath
  match operation.action with
  | .replace => changed (Json.replaceAt? operation.pointer (.str operation.value) document)
  | .add => changed (Json.addAt? operation.pointer (.str operation.value) document)
  | .remove => changed (Json.removeAt? operation.pointer document)
  | .test =>
    match document.at? operation.pointer with
    | none => .error .invalidPath
    | some found => if found = .str operation.value then .ok document else .error .mismatch

namespace Patch

/-- The document after operations in turn, the first of which has the index `index`. -/
def applyFrom (index : Nat) : Patch → Json → Except PatchError Json
  | [], document => .ok document
  | operation :: rest, document =>
    match operation.applyTo document with
    | .ok document => applyFrom (index + 1) rest document
    | .error cause => .error (.failed index operation.pointer cause)

/-- The document after a patch. -/
def apply (patch : Patch) (document : Json) : Except PatchError Json := applyFrom 0 patch document

/-- The document after operations that are given: all are checked, then all are applied. -/
def applyOps (ops : List PatchOp) (document : Json) : Except PatchError Json :=
  match ofOps? ops with
  | some patch => patch.apply document
  | none => .error .invalidOperation

/-- The JSON text after operations. Without operations the text is not read, and it stays as it
is. -/
def applyToText (ops : List PatchOp) (text : String) : Except PatchError String :=
  if ops.isEmpty then .ok text
  else match Json.read text.toList with
    | .error cause => .error (.invalidDocument cause)
    | .ok document => (applyOps ops document).map Json.compact

/-- The bytes of a JSON text after operations. Without operations the bytes are not read, and
they stay as they are. -/
def applyToBytes (ops : List PatchOp) (bytes : ByteArray) : Except PatchError ByteArray :=
  if ops.isEmpty then .ok bytes
  else match String.fromUTF8? bytes with
    | none => .error (.invalidDocument .malformed)
    | some text => (applyToText ops text).map String.toUTF8

end Patch

end WorkloadImages

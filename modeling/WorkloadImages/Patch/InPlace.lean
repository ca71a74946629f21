import WorkloadImages.Patch.Apply

/-!
# Patches in place

A document that is patched in place is held by whoever asks for it, and has to be whole whatever
happens. The operations work on a copy; it takes the place of the document when the last of them
has been applied, and is dropped when one of them fails.

## Main definitions

* `Patch.workOn`: a copy after the operations that could be applied
* `Patch.applyInPlace`: a document after operations in place

## Main results

* `Patch.applyInPlace_eq`: the document is the one that the operations give, or is as it was
-/

namespace WorkloadImages.Patch

/-- A copy after operations in turn, the first of which has the index `index`, up to the first that
cannot be applied. -/
def workOn (index : Nat) : Patch → Json → Except PatchError Unit × Json
  | [], copy => (.ok (), copy)
  | operation :: rest, copy =>
    match operation.applyTo copy with
    | .ok copy => workOn (index + 1) rest copy
    | .error cause => (.error (.failed index operation.pointer cause), copy)

/-- Whether operations can be applied to a document in place, and the document afterwards. -/
def applyInPlace (ops : List PatchOp) (document : Json) : Except PatchError Unit × Json :=
  if ops.isEmpty then (.ok (), document)
  else match ofOps? ops with
    | none => (.error .invalidOperation, document)
    | some patch =>
      match workOn 0 patch document with
      | (.ok (), copy) => (.ok (), copy)
      -- What the operations before the failing one did to the copy is lost.
      | (.error cause, _) => (.error cause, document)

variable {ops : List PatchOp} {document changed : Json} {cause : PatchError}

theorem workOn_of_ok {patch : Patch} {index : Nat}
    (h : applyFrom index patch document = .ok changed) :
    workOn index patch document = (.ok (), changed) := by
  induction patch generalizing index document with
  | nil =>
    obtain rfl := Except.ok.inj h
    rfl
  | cons operation rest ih =>
    rw [applyFrom] at h
    rw [workOn]
    cases hfirst : operation.applyTo document with
    | ok next =>
      rw [hfirst] at h
      exact ih h
    | error cause =>
      rw [hfirst] at h
      cases h

theorem workOn_of_error {patch : Patch} {index : Nat}
    (h : applyFrom index patch document = .error cause) :
    (workOn index patch document).1 = .error cause := by
  induction patch generalizing index document with
  | nil => cases h
  | cons operation rest ih =>
    rw [applyFrom] at h
    rw [workOn]
    cases hfirst : operation.applyTo document with
    | ok next =>
      rw [hfirst] at h
      exact ih h
    | error refusal =>
      rw [hfirst] at h
      obtain rfl := Except.error.inj h
      rfl

/-- **A document patched in place** is the one that the operations give if all can be applied, and
else is as it was. -/
theorem applyInPlace_eq (ops : List PatchOp) (document : Json) :
    applyInPlace ops document =
      match applyOps ops document with
      | .ok changed => (.ok (), changed)
      | .error cause => (.error cause, document) := by
  unfold applyInPlace applyOps
  cases ops with
  | nil => rfl
  | cons op ops =>
    rw [List.isEmpty_cons, if_neg Bool.false_ne_true]
    cases ofOps? (op :: ops) with
    | none => rfl
    | some patch =>
      dsimp only
      cases happly : patch.apply document with
      | ok changed => rw [workOn_of_ok happly]
      | error cause =>
        have hwork := workOn_of_error happly
        cases hresult : workOn 0 patch document with
        | mk result copy =>
          rw [hresult] at hwork
          obtain rfl : result = .error cause := hwork
          rfl

theorem applyInPlace_of_ok (h : applyOps ops document = .ok changed) :
    applyInPlace ops document = (.ok (), changed) := by
  rw [applyInPlace_eq, h]

theorem applyInPlace_of_error (h : applyOps ops document = .error cause) :
    applyInPlace ops document = (.error cause, document) := by
  rw [applyInPlace_eq, h]

end WorkloadImages.Patch

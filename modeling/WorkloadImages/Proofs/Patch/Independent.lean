import Mathlib.Data.List.Pairwise
import WorkloadImages.Patch.InPlace
import WorkloadImages.Proofs.Patch.Replace

/-!
# Patches whose operations are independent

The operations of a patch are independent when each replaces a value and none leads into what
another leads to. None of them sees what the others have done. So the patch can be applied exactly
if each of its pointers leads somewhere in the document as it is before, and the order of the
operations does not count.

## Main definitions

* `Patch.Independent`: the operations of a patch are independent
* `Patch.result?`: the document after a patch, if it can be applied
* `PatchOp.replacement`: the operation that one is when it is given to replace a value

## Main results

* `Patch.Independent.exists_result?_iff`: when a patch can be applied
* `Patch.Independent.exists_of_applyFrom_eq_error`: which operation fails when it cannot
* `Patch.Independent.result?_perm`: the order of the operations does not count
-/

namespace WorkloadImages

variable {operation other : Operation} {patch patch' : Patch} {document document' : Json}
  {pointer : Pointer} {start : Nat} {cause : PatchError}

namespace Operation

/-- Neither operation leads into what the other leads to. -/
def Apart (first second : Operation) : Prop := first.pointer.Apart second.pointer

instance : Std.Symm Apart := ⟨fun _ _ => Pointer.Apart.symm⟩

/-- To replace a value fails only where there is none. -/
theorem applyTo_replace_eq_error {refusal : Refusal} (hreplace : operation.action = .replace)
    (h : operation.applyTo document = .error refusal) :
    document.at? operation.pointer = none ∧ refusal = .invalidPath := by
  unfold applyTo at h
  rw [hreplace] at h
  dsimp only at h
  cases hchanged : Json.replaceAt? operation.pointer (.str operation.value) document with
  | some changed =>
    rw [hchanged] at h
    cases h
  | none =>
    rw [hchanged] at h
    refine ⟨?_, (Except.error.inj h).symm⟩
    cases hold : document.at? operation.pointer with
    | none => rfl
    | some old =>
      obtain ⟨changed, hsome⟩ := Json.exists_replaceAt? hold (.str operation.value)
      rw [hchanged] at hsome
      cases hsome

end Operation

namespace Patch

/-- The operations replace values, and none leads into what another leads to. -/
structure Independent (patch : Patch) : Prop where
  replace : ∀ operation ∈ patch, operation.action = .replace
  apart : patch.Pairwise Operation.Apart

namespace Independent

theorem tail (h : Independent (operation :: patch)) : Independent patch :=
  ⟨fun other hother => h.replace other (List.mem_cons_of_mem _ hother),
    (List.pairwise_cons.1 h.apart).2⟩

theorem head_apart (h : Independent (operation :: patch)) :
    ∀ other ∈ patch, operation.pointer.Apart other.pointer :=
  (List.pairwise_cons.1 h.apart).1

theorem head_replace (h : Independent (operation :: patch)) : operation.action = .replace :=
  h.replace operation List.mem_cons_self

theorem perm (h : Independent patch) (hperm : patch.Perm patch') : Independent patch' := by
  refine ⟨fun operation hmem => h.replace operation (hperm.mem_iff.2 hmem), ?_⟩
  exact hperm.pairwise h.apart Pointer.Apart.symm

theorem eq_or_apart (h : Independent patch) (hother : other ∈ patch) (hmem : operation ∈ patch) :
    other = operation ∨ other.pointer.Apart operation.pointer := by
  by_cases heq : other = operation
  · exact Or.inl heq
  · exact Or.inr (h.apart.forall hother hmem heq)

/-- What a later operation leads to does not change by the first. -/
theorem at?_of_replaceAt? (h : Independent (operation :: patch)) {next : Json}
    (hnext : Json.replaceAt? operation.pointer (.str operation.value) document = some next)
    (hother : other ∈ patch) : next.at? other.pointer = document.at? other.pointer :=
  Json.at?_modifyAt?_of_apart hnext (h.head_apart other hother)

end Independent

/-! ## The result of a patch -/

/-- The document after a patch, if all operations can be applied. -/
def result? (patch : Patch) (document : Json) : Option Json := (patch.apply document).toOption

theorem result?_eq_some_iff :
    patch.result? document = some document' ↔ patch.apply document = .ok document' := by
  unfold result?
  cases patch.apply document <;> simp [Except.toOption]

/-- The index of the first operation shows in an error only. -/
theorem toOption_applyFrom (start start' : Nat) (patch : Patch) (document : Json) :
    (applyFrom start patch document).toOption = (applyFrom start' patch document).toOption := by
  induction patch generalizing start start' document with
  | nil => rfl
  | cons operation patch ih =>
    rw [applyFrom, applyFrom]
    cases operation.applyTo document with
    | ok next => exact ih (start + 1) (start' + 1) next
    | error refusal => rfl

theorem result?_cons (hreplace : operation.action = .replace) (patch : Patch) (document : Json) :
    result? (operation :: patch) document =
      (Json.replaceAt? operation.pointer (.str operation.value) document).bind patch.result? := by
  unfold result? apply
  rw [applyFrom]
  cases hfirst : operation.applyTo document with
  | ok next =>
    rw [(Operation.applyTo_replace_iff hreplace).1 hfirst, Option.bind_some]
    exact toOption_applyFrom (0 + 1) 0 patch next
  | error refusal =>
    cases hnext : Json.replaceAt? operation.pointer (.str operation.value) document with
    | none => rfl
    | some next =>
      rw [(Operation.applyTo_replace_iff hreplace).2 hnext] at hfirst
      cases hfirst

namespace Independent

/-- **When a patch can be applied**: each pointer leads somewhere in the document before. -/
theorem exists_result?_iff (h : Independent patch) (document : Json) :
    (∃ document', patch.result? document = some document') ↔
      ∀ operation ∈ patch, ∃ old, document.at? operation.pointer = some old := by
  induction patch generalizing document with
  | nil => exact ⟨fun _ _ hmem => absurd hmem List.not_mem_nil, fun _ => ⟨document, rfl⟩⟩
  | cons operation patch ih =>
    rw [result?_cons h.head_replace, List.forall_mem_cons]
    constructor
    · rintro ⟨document', hresult⟩
      obtain ⟨next, hnext, hrest⟩ := Option.bind_eq_some_iff.1 hresult
      obtain ⟨old, -, hold, -⟩ := Json.at?_modifyAt?_self hnext
      refine ⟨⟨old, hold⟩, fun other hother => ?_⟩
      rw [← h.at?_of_replaceAt? hnext hother]
      exact (ih h.tail next).1 ⟨document', hrest⟩ other hother
    · rintro ⟨⟨old, hold⟩, hall⟩
      obtain ⟨next, hnext⟩ := Json.exists_replaceAt? hold (.str operation.value)
      rw [hnext, Option.bind_some]
      apply (ih h.tail next).2
      intro other hother
      rw [h.at?_of_replaceAt? hnext hother]
      exact hall other hother

/-- The operation that fails is one whose pointer leads nowhere in the document before. -/
theorem exists_of_applyFrom_eq_error (h : Independent patch)
    (herror : applyFrom start patch document = .error cause) :
    ∃ index, ∃ operation ∈ patch, document.at? operation.pointer = none ∧
      cause = .failed index operation.pointer .invalidPath := by
  induction patch generalizing start document with
  | nil => cases herror
  | cons operation patch ih =>
    rw [applyFrom] at herror
    cases hfirst : operation.applyTo document with
    | error refusal =>
      rw [hfirst] at herror
      obtain ⟨hnone, rfl⟩ := Operation.applyTo_replace_eq_error h.head_replace hfirst
      exact ⟨start, operation, List.mem_cons_self, hnone, (Except.error.inj herror).symm⟩
    | ok next =>
      rw [hfirst] at herror
      obtain ⟨index, other, hother, hnone, hcause⟩ := ih h.tail herror
      rw [Operation.applyTo_replace_iff h.head_replace] at hfirst
      rw [h.at?_of_replaceAt? hfirst hother] at hnone
      exact ⟨index, other, List.mem_cons_of_mem _ hother, hnone, hcause⟩

/-- **The order of the operations does not count** for the result of a patch. -/
theorem result?_perm (h : Independent patch) (hperm : patch.Perm patch') (document : Json) :
    patch.result? document = patch'.result? document := by
  induction hperm generalizing document with
  | nil => rfl
  | cons operation _ ih =>
    rw [result?_cons h.head_replace, result?_cons h.head_replace]
    cases Json.replaceAt? operation.pointer (.str operation.value) document with
    | none => rfl
    | some next => exact ih h.tail next
  | swap first second patch =>
    have hsecond : second.pointer.Apart first.pointer := h.head_apart first List.mem_cons_self
    have hreplace : result? (first :: patch) = fun next =>
        (Json.replaceAt? first.pointer (.str first.value) next).bind (result? patch) :=
      funext (result?_cons h.tail.head_replace patch)
    have hreplace' : result? (second :: patch) = fun next =>
        (Json.replaceAt? second.pointer (.str second.value) next).bind (result? patch) :=
      funext (result?_cons h.head_replace patch)
    rw [result?_cons h.head_replace, result?_cons h.tail.head_replace, hreplace, hreplace',
      ← Option.bind_assoc, ← Option.bind_assoc]
    exact congrArg (Option.bind · (result? patch)) (Json.modifyAt?_comm hsecond _ _ document)
  | trans hfirst _ ih ih' => exact (ih h document).trans (ih' (h.perm hfirst) document)

end Independent

end Patch

/-! ## Operations as they are given -/

/-- The operation that one is when it is given to replace a value. -/
def PatchOp.replacement (op : PatchOp) : Operation :=
  ⟨.replace, (Pointer.decode? op.path).getD [], op.value⟩

variable {ops : List PatchOp}

theorem Patch.ofOps?_of_valid (h : ∀ op ∈ ops, Operation.ofOp? op = some op.replacement) :
    Patch.ofOps? ops = some (ops.map PatchOp.replacement) := by
  unfold ofOps?
  induction ops with
  | nil => rfl
  | cons op ops ih =>
    rw [List.mapM_cons, h op List.mem_cons_self,
      ih fun other hother => h other (List.mem_cons_of_mem _ hother)]
    rfl

theorem Patch.applyOps_of_valid (h : ∀ op ∈ ops, Operation.ofOp? op = some op.replacement)
    (document : Json) :
    Patch.applyOps ops document = Patch.apply (ops.map PatchOp.replacement) document := by
  rw [applyOps, ofOps?_of_valid h]

end WorkloadImages

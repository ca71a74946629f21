import WorkloadImages.Patch.Apply
import WorkloadImages.Proofs.Json.Frame

/-!
# Patches that replace

What a patch does whose operations replace values, each apart from the others: every pointer that
it has leads to its text afterwards, and every pointer apart from those leads to what it did. What
is around the replaced values keeps its outline.

## Main results

* `Patch.exists_ofOps?`: operations that are all valid make a patch
* `Patch.at?_applyFrom_of_mem`: what the pointers of a patch lead to afterwards
* `Patch.at?_applyFrom_of_apart`: what the other pointers lead to
* `Patch.outline_at?_applyFrom`: the outline of what is around the replaced values
-/

namespace WorkloadImages

variable {operation : Operation} {patch : Patch} {document document' : Json} {pointer : Pointer}
  {start : Nat}

theorem Action.ofWord?_word (action : Action) : Action.ofWord? action.word = some action := by
  cases action <;> decide

/-- An operation is read from its word and the text of its pointer. -/
theorem Operation.ofOp?_encode (action : Action) (pointer : Pointer) (value : String) :
    Operation.ofOp? ⟨action.word, pointer.encode, value⟩ = some ⟨action, pointer, value⟩ := by
  simp only [Operation.ofOp?, Action.ofWord?_word, Pointer.decode?_encode]

theorem Operation.applyTo_replace_iff (h : operation.action = .replace) :
    operation.applyTo document = .ok document' ↔
      Json.replaceAt? operation.pointer (.str operation.value) document = some document' := by
  unfold applyTo
  rw [h]
  cases Json.replaceAt? operation.pointer (.str operation.value) document <;> simp

namespace Patch

/-- Operations that are all valid make a patch. -/
theorem exists_ofOps? {ops : List PatchOp}
    (h : ∀ op ∈ ops, ∃ operation, Operation.ofOp? op = some operation) :
    ∃ patch, ofOps? ops = some patch ∧
      ∀ operation, operation ∈ patch ↔ ∃ op ∈ ops, Operation.ofOp? op = some operation := by
  induction ops with
  | nil => exact ⟨[], rfl, by simp⟩
  | cons op ops ih =>
    obtain ⟨first, hfirst⟩ := h op List.mem_cons_self
    obtain ⟨patch, hpatch, hmem⟩ := ih fun op hop => h op (List.mem_cons_of_mem _ hop)
    refine ⟨first :: patch, ?_, fun operation => ?_⟩
    · rw [ofOps?] at hpatch
      rw [ofOps?, List.mapM_cons, hfirst, hpatch]
      rfl
    · rw [List.mem_cons, hmem]
      simp [hfirst, eq_comm]

/-- The first operation of a patch that can be applied. -/
theorem applyFrom_cons_eq_ok_iff :
    applyFrom start (operation :: patch) document = .ok document' ↔
      ∃ next, operation.applyTo document = .ok next ∧
        applyFrom (start + 1) patch next = .ok document' := by
  rw [applyFrom]
  cases operation.applyTo document <;> simp

/-- **A pointer apart from those of the operations** leads to what it did. -/
theorem at?_applyFrom_of_apart (h : applyFrom start patch document = .ok document')
    (hreplace : ∀ operation ∈ patch, operation.action = .replace)
    (hapart : ∀ operation ∈ patch, operation.pointer.Apart pointer) :
    document'.at? pointer = document.at? pointer := by
  induction patch generalizing start document with
  | nil =>
    obtain rfl := Except.ok.inj h
    rfl
  | cons operation patch ih =>
    obtain ⟨next, hfirst, hrest⟩ := applyFrom_cons_eq_ok_iff.1 h
    rw [Operation.applyTo_replace_iff (hreplace operation List.mem_cons_self)] at hfirst
    rw [ih hrest (fun operation hmem => hreplace operation (List.mem_cons_of_mem _ hmem))
      (fun operation hmem => hapart operation (List.mem_cons_of_mem _ hmem))]
    exact Json.at?_modifyAt?_of_apart hfirst (hapart operation List.mem_cons_self)

/-- A pointer that no operation leads to or around leads to a value with the outline that it had. -/
theorem outline_at?_applyFrom (h : applyFrom start patch document = .ok document')
    (hreplace : ∀ operation ∈ patch, operation.action = .replace)
    (hinside : ∀ operation ∈ patch, ¬ operation.pointer <+: pointer) :
    (document'.at? pointer).map Json.outline = (document.at? pointer).map Json.outline := by
  induction patch generalizing start document with
  | nil =>
    obtain rfl := Except.ok.inj h
    rfl
  | cons operation patch ih =>
    obtain ⟨next, hfirst, hrest⟩ := applyFrom_cons_eq_ok_iff.1 h
    rw [Operation.applyTo_replace_iff (hreplace operation List.mem_cons_self)] at hfirst
    rw [ih hrest (fun operation hmem => hreplace operation (List.mem_cons_of_mem _ hmem))
      (fun operation hmem => hinside operation (List.mem_cons_of_mem _ hmem))]
    exact Json.outline_at?_modifyAt? hfirst (hinside operation List.mem_cons_self)

/-- **The pointer of an operation** leads to its text, if the other operations are apart from it. -/
theorem at?_applyFrom_of_mem (h : applyFrom start patch document = .ok document')
    (hreplace : ∀ operation ∈ patch, operation.action = .replace)
    (hothers : ∀ other ∈ patch, other = operation ∨ other.pointer.Apart operation.pointer)
    (hmem : operation ∈ patch) :
    document'.at? operation.pointer = some (.str operation.value) := by
  induction patch generalizing start document with
  | nil => cases hmem
  | cons first patch ih =>
    obtain ⟨next, hfirst, hrest⟩ := applyFrom_cons_eq_ok_iff.1 h
    have hreplace' : ∀ operation ∈ patch, operation.action = .replace := fun operation hmem =>
      hreplace operation (List.mem_cons_of_mem _ hmem)
    have hothers' : ∀ other ∈ patch, other = operation ∨ other.pointer.Apart operation.pointer :=
      fun other hmem => hothers other (List.mem_cons_of_mem _ hmem)
    -- The same operation may come again: the last time is the one that counts.
    by_cases hlater : operation ∈ patch
    · exact ih hrest hreplace' hothers' hlater
    · -- The operation is the first one, and none of the others sees what it has written.
      obtain rfl : operation = first := (List.mem_cons.1 hmem).resolve_right hlater
      rw [Operation.applyTo_replace_iff (hreplace operation List.mem_cons_self)] at hfirst
      have hapart : ∀ other ∈ patch, other.pointer.Apart operation.pointer := by
        intro other hother
        refine (hothers' other hother).resolve_left ?_
        rintro rfl
        exact hlater hother
      rw [at?_applyFrom_of_apart hrest hreplace' hapart]
      obtain ⟨-, new, -, hnew, hat⟩ := Json.at?_modifyAt?_self hfirst
      rw [hat, ← hnew]

end Patch

end WorkloadImages

import WorkloadImages.Patch.InPlace
import WorkloadImages.Proofs.Json.PointerText
import WorkloadImages.Proofs.Patch.Replace

/-!
# Batches of operations

Operations that are given together are all checked before the first one is applied. Then each
works on the document that those before it lead to, until one fails there and the document stays as
it was. So a batch does what its parts do one after the other, and nothing if one of them fails.

## Main definitions

* `PatchOp.Valid`: the operations that pass the check
* `Patch.Leads`: operations take a document to another one, in turn
* `Patch.FailsAt`: an operation fails on the document that those before it lead to
* `Patch.documentOf?`: the document that bytes write

## Main results

* `PatchOp.valid_iff`: which operations are known
* `Patch.applyOps_eq_ok_iff`, `Patch.applyOps_eq_failed_iff`: when a batch is applied, and when
  not
* `Patch.applyInPlace_batch`: what becomes of a document, and of bytes
-/

namespace WorkloadImages

/-! ## Valid operations -/

/-- An operation that passes the check: it is one of four, and its path writes a pointer. -/
structure PatchOp.Valid (op : PatchOp) : Prop where
  word : op.op ∈ ["replace", "add", "remove", "test"]
  path : Pointer.IsText op.path

theorem Action.isSome_ofWord?_iff {word : String} :
    (Action.ofWord? word).isSome = true ↔ word ∈ ["replace", "add", "remove", "test"] := by
  have hlist : ["replace", "add", "remove", "test"] =
      [Action.replace, .add, .remove, .test].map Action.word := rfl
  rw [Action.ofWord?, List.find?_isSome, hlist, List.mem_map]
  simp only [decide_eq_true_eq]

/-- **The operations that are known** are the valid ones. -/
theorem PatchOp.valid_iff {op : PatchOp} :
    (Operation.ofOp? op).isSome = true ↔ op.Valid := by
  have hboth : (Operation.ofOp? op).isSome = true ↔
      (Action.ofWord? op.op).isSome = true ∧ (Pointer.decode? op.path).isSome = true := by
    unfold Operation.ofOp?
    cases Action.ofWord? op.op <;> cases Pointer.decode? op.path <;> simp
  rw [hboth, Action.isSome_ofWord?_iff, Pointer.isSome_decode?_iff]
  exact ⟨fun h => ⟨h.1, h.2⟩, fun h => ⟨h.word, h.path⟩⟩

namespace Patch

/-! ## One operation after the other -/

/-- Operations take a document to another one, each from where those before it lead. -/
inductive Leads : List PatchOp → Json → Json → Prop
  | nil (document : Json) : Leads [] document document
  | cons {op operation ops document next changed} : Operation.ofOp? op = some operation →
      operation.applyTo document = .ok next → Leads ops next changed →
      Leads (op :: ops) document changed

/-- The operation with an index fails, with a pointer and a cause, on the document that those
before it lead to. -/
def FailsAt (ops : List PatchOp) (document : Json) (index : Nat) (pointer : Pointer)
    (refusal : Refusal) : Prop :=
  ∃ before op after operation reached, ops = before ++ op :: after ∧ before.length = index ∧
    Leads before document reached ∧ Operation.ofOp? op = some operation ∧
    operation.pointer = pointer ∧ operation.applyTo reached = .error refusal

variable {op : PatchOp} {ops first second : List PatchOp} {operation : Operation} {patch : Patch}
  {document changed : Json} {pointer : Pointer} {refusal : Refusal} {index start : Nat}
  {cause : PatchError} {bytes : ByteArray}

/-- **Two batches in turn** lead where they lead as one. -/
theorem leads_append_iff :
    Leads (first ++ second) document changed ↔
      ∃ next, Leads first document next ∧ Leads second next changed := by
  constructor
  · intro h
    induction first generalizing document with
    | nil => exact ⟨document, .nil document, h⟩
    | cons op first ih =>
      cases h with
      | cons hop hstep hrest =>
        obtain ⟨next, hfirst, hsecond⟩ := ih hrest
        exact ⟨next, .cons hop hstep hfirst, hsecond⟩
  · rintro ⟨next, hfirst, hsecond⟩
    induction hfirst with
    | nil => exact hsecond
    | cons hop hstep _ ih => exact .cons hop hstep (ih hsecond)

/-- Either the first operation fails, or a later one from where the first leads. -/
theorem failsAt_cons_iff (hop : Operation.ofOp? op = some operation) :
    FailsAt (op :: ops) document index pointer refusal ↔
      (index = 0 ∧ operation.pointer = pointer ∧ operation.applyTo document = .error refusal) ∨
        ∃ next later, index = later + 1 ∧ operation.applyTo document = .ok next ∧
          FailsAt ops next later pointer refusal := by
  constructor
  · rintro ⟨before, failing, after, failed, reached, heq, rfl, hleads, hfailing, hpointer, hfails⟩
    cases hleads with
    | nil =>
      obtain ⟨rfl, rfl⟩ := List.cons.inj heq
      obtain rfl := Option.some.inj (hop.symm.trans hfailing)
      exact Or.inl ⟨rfl, hpointer, hfails⟩
    | @cons _ _ before _ next _ hop' hstep hleads =>
      obtain ⟨rfl, rfl⟩ := List.cons.inj heq
      obtain rfl := Option.some.inj (hop.symm.trans hop')
      exact Or.inr ⟨next, before.length, rfl, hstep, before, failing, after, failed, reached, rfl,
        rfl, hleads, hfailing, hpointer, hfails⟩
  · rintro (⟨rfl, hpointer, hfails⟩ | ⟨next, later, rfl, hstep, before, failing, after, failed,
      reached, rfl, rfl, hleads, hfailing, hpointer, hfails⟩)
    · exact ⟨[], op, ops, operation, document, rfl, rfl, .nil document, hop, hpointer, hfails⟩
    · exact ⟨op :: before, failing, after, failed, reached, rfl, rfl, .cons hop hstep hleads,
        hfailing, hpointer, hfails⟩

/-! ## What a batch comes to -/

theorem ofOps?_cons_eq_some_iff :
    ofOps? (op :: ops) = some patch ↔
      ∃ operation rest, Operation.ofOp? op = some operation ∧ ofOps? ops = some rest ∧
        patch = operation :: rest := by
  unfold ofOps?
  rw [List.mapM_cons]
  cases Operation.ofOp? op <;> cases ops.mapM Operation.ofOp? <;> simp [eq_comm]

theorem isSome_ofOps?_iff : (ofOps? ops).isSome = true ↔ ∀ op ∈ ops, op.Valid := by
  rw [ofOps?, isSome_mapM_iff]
  simp only [PatchOp.valid_iff]

theorem ofOps?_eq_none_iff : ofOps? ops = none ↔ ∃ op ∈ ops, ¬ op.Valid := by
  rw [← Option.not_isSome_iff_eq_none, isSome_ofOps?_iff]
  simp only [Classical.not_forall, exists_prop]

/-- Operations that have been checked are applied where they lead to. -/
theorem applyFrom_eq_ok_iff (hpatch : ofOps? ops = some patch) :
    applyFrom start patch document = .ok changed ↔ Leads ops document changed := by
  induction ops generalizing start patch document with
  | nil =>
    obtain rfl : [] = patch := Option.some.inj hpatch
    constructor
    · intro h
      obtain rfl := Except.ok.inj h
      exact .nil document
    · intro h
      cases h
      rfl
  | cons op ops ih =>
    obtain ⟨operation, rest, hop, hrest, rfl⟩ := ofOps?_cons_eq_some_iff.1 hpatch
    rw [applyFrom_cons_eq_ok_iff]
    constructor
    · rintro ⟨next, hstep, happly⟩
      exact .cons hop hstep ((ih hrest).1 happly)
    · intro h
      cases h with
      | cons hop' hstep hleads =>
        obtain rfl := Option.some.inj (hop.symm.trans hop')
        exact ⟨_, hstep, (ih hrest).2 hleads⟩

/-- The first of them that fails is what the error tells. -/
theorem applyFrom_eq_error_iff (hpatch : ofOps? ops = some patch) :
    applyFrom start patch document = .error cause ↔
      ∃ index pointer refusal, FailsAt ops document index pointer refusal ∧
        cause = .failed (start + index) pointer refusal := by
  induction ops generalizing start patch document with
  | nil =>
    obtain rfl : [] = patch := Option.some.inj hpatch
    refine iff_of_false nofun ?_
    rintro ⟨index, pointer, refusal, ⟨before, op, after, -, -, heq, -⟩, -⟩
    simp at heq
  | cons op ops ih =>
    obtain ⟨operation, rest, hop, hrest, rfl⟩ := ofOps?_cons_eq_some_iff.1 hpatch
    simp only [failsAt_cons_iff hop, applyFrom]
    cases hstep : operation.applyTo document with
    | ok next =>
      dsimp only
      rw [ih hrest]
      constructor
      · rintro ⟨index, pointer, refusal, hfails, rfl⟩
        refine ⟨index + 1, pointer, refusal, Or.inr ⟨next, index, rfl, rfl, hfails⟩, ?_⟩
        rw [Nat.add_assoc, Nat.add_comm 1 index]
      · rintro ⟨index, pointer, refusal, ⟨-, -, hnot⟩ | ⟨next', later, rfl, hnext, hfails⟩, rfl⟩
        · cases hnot
        · obtain rfl := Except.ok.inj hnext
          refine ⟨later, pointer, refusal, hfails, ?_⟩
          rw [Nat.add_assoc, Nat.add_comm 1 later]
    | error found =>
      constructor
      · intro h
        exact ⟨0, operation.pointer, found, Or.inl ⟨rfl, rfl, rfl⟩, (Except.error.inj h).symm⟩
      · rintro ⟨index, pointer, refusal, ⟨rfl, rfl, hfound⟩ | ⟨next, later, -, hnot, -⟩, rfl⟩
        · rw [Except.error.inj hfound]
          rfl
        · cases hnot

theorem Leads.valid (h : Leads ops document changed) : ∀ op ∈ ops, op.Valid := by
  induction h with
  | nil => exact fun _ hop => nomatch hop
  | cons hop _ _ ih =>
    exact List.forall_mem_cons.2 ⟨PatchOp.valid_iff.1 (Option.isSome_of_eq_some hop), ih⟩

/-- **A batch is applied** exactly if it leads somewhere, and it gives the document that it leads
to. -/
theorem applyOps_eq_ok_iff : applyOps ops document = .ok changed ↔ Leads ops document changed := by
  unfold applyOps
  cases hpatch : ofOps? ops with
  | some patch => exact applyFrom_eq_ok_iff hpatch
  | none =>
    refine iff_of_false nofun fun h => ?_
    obtain ⟨op, hop, hnot⟩ := ofOps?_eq_none_iff.1 hpatch
    exact hnot (h.valid op hop)

/-- **A batch is refused unread** exactly if one of the operations is not valid, wherever it
stands. -/
theorem applyOps_eq_invalidOperation_iff :
    applyOps ops document = .error .invalidOperation ↔ ∃ op ∈ ops, ¬ op.Valid := by
  rw [← ofOps?_eq_none_iff]
  unfold applyOps
  cases hpatch : ofOps? ops with
  | none => simp
  | some patch =>
    refine iff_of_false (fun h => ?_) nofun
    obtain ⟨index, pointer, refusal, -, hcause⟩ := (applyFrom_eq_error_iff hpatch).1 h
    cases hcause

/-- **A batch fails** exactly if all operations are valid and one fails where it is applied. -/
theorem applyOps_eq_failed_iff :
    applyOps ops document = .error (.failed index pointer refusal) ↔
      (∀ op ∈ ops, op.Valid) ∧ FailsAt ops document index pointer refusal := by
  unfold applyOps
  cases hpatch : ofOps? ops with
  | none =>
    obtain ⟨op, hop, hnot⟩ := ofOps?_eq_none_iff.1 hpatch
    exact iff_of_false nofun fun h => hnot (h.1 op hop)
  | some patch =>
    have hvalid := isSome_ofOps?_iff.1 (Option.isSome_of_eq_some hpatch)
    dsimp only
    rw [apply, applyFrom_eq_error_iff hpatch]
    constructor
    · rintro ⟨index', pointer', refusal', hfails, hcause⟩
      obtain ⟨rfl, rfl, rfl⟩ := PatchError.failed.inj hcause
      rw [Nat.zero_add]
      exact ⟨hvalid, hfails⟩
    · rintro ⟨-, hfails⟩
      exact ⟨index, pointer, refusal, hfails, by rw [Nat.zero_add]⟩

/-- Nothing else goes wrong with a batch. -/
theorem applyOps_eq_error_cases (h : applyOps ops document = .error cause) :
    cause = .invalidOperation ∨ ∃ index pointer refusal, cause = .failed index pointer refusal := by
  unfold applyOps at h
  cases hpatch : ofOps? ops with
  | none =>
    rw [hpatch] at h
    exact Or.inl (Except.error.inj h).symm
  | some patch =>
    rw [hpatch] at h
    obtain ⟨index, pointer, refusal, -, hcause⟩ := (applyFrom_eq_error_iff hpatch).1 h
    exact Or.inr ⟨_, pointer, refusal, hcause⟩

/-! ## Documents in place, and bytes -/

theorem applyInPlace_eq_ok_iff :
    applyInPlace ops document = (.ok (), changed) ↔ Leads ops document changed := by
  rw [applyInPlace_eq, ← applyOps_eq_ok_iff]
  cases applyOps ops document <;> simp

/-- A batch that is not applied leaves the document as it was. -/
theorem applyInPlace_eq_error_iff {after : Json} :
    applyInPlace ops document = (.error cause, after) ↔
      applyOps ops document = .error cause ∧ after = document := by
  rw [applyInPlace_eq]
  cases applyOps ops document <;> simp [eq_comm]

/-- The document that bytes write. -/
def documentOf? (bytes : ByteArray) : Option Json :=
  (String.fromUTF8? bytes).bind fun text => Json.read? text.toList

theorem applyToBytes_of_documentOf? (hne : ops ≠ []) (h : documentOf? bytes = some document) :
    applyToBytes ops bytes =
      (applyOps ops document).map fun changed => changed.compact.toUTF8 := by
  have hops : ¬ ops.isEmpty = true := by simpa using hne
  obtain ⟨text, htext, hread⟩ := Option.bind_eq_some_iff.1 h
  unfold Json.read? at hread
  unfold applyToBytes applyToText
  rw [if_neg hops, htext]
  dsimp only
  rw [if_neg hops]
  cases hvalue : Json.read text.toList with
  | error cause =>
    rw [hvalue] at hread
    cases hread
  | ok value =>
    rw [hvalue] at hread
    obtain rfl : value = document := Option.some.inj hread
    dsimp only
    cases applyOps ops value <;> rfl

/-- **Bytes that write no document** are found out before the operations are looked at. -/
theorem exists_applyToBytes_eq_invalidDocument_iff :
    (∃ cause, applyToBytes ops bytes = .error (.invalidDocument cause)) ↔
      ops ≠ [] ∧ documentOf? bytes = none := by
  by_cases hne : ops = []
  · subst hne
    exact iff_of_false nofun fun h => h.1 rfl
  cases hdocument : documentOf? bytes with
  | some document =>
    refine iff_of_false ?_ nofun
    rintro ⟨cause, h⟩
    rw [applyToBytes_of_documentOf? hne hdocument] at h
    cases happly : applyOps ops document with
    | ok changed =>
      rw [happly] at h
      cases h
    | error found =>
      rw [happly] at h
      obtain rfl := Except.error.inj h
      rcases applyOps_eq_error_cases happly with hcause | ⟨index, pointer, refusal, hcause⟩
      · cases hcause
      · cases hcause
  | none =>
    refine iff_of_true ?_ ⟨hne, rfl⟩
    have hops : ¬ ops.isEmpty = true := by simpa using hne
    unfold applyToBytes applyToText
    rw [if_neg hops]
    cases htext : String.fromUTF8? bytes with
    | none => exact ⟨.malformed, rfl⟩
    | some text =>
      dsimp only
      rw [if_neg hops]
      cases hvalue : Json.read text.toList with
      | error cause => exact ⟨cause, rfl⟩
      | ok value =>
        rw [documentOf?, htext, Option.bind_some, Json.read?, hvalue] at hdocument
        cases hdocument

/-- **A batch is checked first, applied as a whole, and composes.** One operation that is not valid
is enough to refuse all, whether or not one before it could be applied. Otherwise the batch fails
exactly if an operation fails on the document that those before it lead to, and the document stays
as it was whatever goes wrong. A batch in two parts is applied exactly if the parts are, one after
the other. Bytes that write no document are refused before all this, but not by an empty batch,
which leaves any bytes as they are. -/
theorem applyInPlace_batch (ops : List PatchOp) (document : Json) :
    (applyInPlace ops document = (.error .invalidOperation, document) ↔
        ∃ op ∈ ops, ¬ op.Valid) ∧
      (∀ index pointer refusal,
        applyInPlace ops document = (.error (.failed index pointer refusal), document) ↔
          (∀ op ∈ ops, op.Valid) ∧ FailsAt ops document index pointer refusal) ∧
      (∀ changed, applyInPlace ops document = (.ok (), changed) ↔ Leads ops document changed) ∧
      (∀ cause after, applyInPlace ops document = (.error cause, after) →
        after = document ∧ (cause = .invalidOperation ∨
          ∃ index pointer refusal, cause = .failed index pointer refusal)) ∧
      (∀ first second changed,
        applyInPlace (first ++ second) document = (.ok (), changed) ↔
          ∃ next, applyInPlace first document = (.ok (), next) ∧
            applyInPlace second next = (.ok (), changed)) ∧
      (∀ bytes, applyToBytes [] bytes = .ok bytes) ∧
      (∀ bytes, (∃ cause, applyToBytes ops bytes = .error (.invalidDocument cause)) ↔
        ops ≠ [] ∧ documentOf? bytes = none) ∧
      ∀ bytes written, ops ≠ [] → documentOf? bytes = some written →
        applyToBytes ops bytes =
          (applyOps ops written).map fun changed => changed.compact.toUTF8 := by
  refine ⟨?_, ?_, fun _ => applyInPlace_eq_ok_iff, ?_, ?_, fun _ => rfl,
    fun _ => exists_applyToBytes_eq_invalidDocument_iff,
    fun _ _ => applyToBytes_of_documentOf?⟩
  · rw [applyInPlace_eq_error_iff, applyOps_eq_invalidOperation_iff]
    exact and_iff_left rfl
  · intro index pointer refusal
    rw [applyInPlace_eq_error_iff, applyOps_eq_failed_iff]
    exact and_iff_left rfl
  · intro cause after h
    obtain ⟨hcause, hafter⟩ := applyInPlace_eq_error_iff.1 h
    exact ⟨hafter, applyOps_eq_error_cases hcause⟩
  · intro first second changed
    simp only [applyInPlace_eq_ok_iff]
    exact leads_append_iff

end Patch

end WorkloadImages

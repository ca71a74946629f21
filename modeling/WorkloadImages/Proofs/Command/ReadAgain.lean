import WorkloadImages.Proofs.Command.Canonicalize
import WorkloadImages.Proofs.Manifest.Stream

/-!
# Output that is read again

A run that writes images in full as YAML writes a stream of objects, one for each document of its
manifest. The program reads such a stream as what was written unless it takes it for JSON.

## Main results

* `Run.depth_le_of_qualifyAll`: documents that all come out are not nested too deeply
* `Command.exists_output_canonicalize`: what a run that succeeds writes
* `Command.read_stream_iff`: which streams are read as what was written
-/

namespace WorkloadImages

variable {text : String} {documents : List Json}

/-! ## Objects in full -/

namespace Json

theorem isObject_mapFloats (change : Binary64 → Binary64) (value : Json) :
    (value.mapFloats change).isObject = value.isObject := by
  cases value <;> simp [mapFloats, isObject]

theorem isObject_modifyField (key : String) (change : Json → Json) (value : Json) :
    (value.modifyField key change).isObject = value.isObject := by
  cases value <;> rfl

end Json

theorem isObject_canonicalDocument (document : Json) (kind : String) :
    (canonicalDocument document kind).isObject = document.isObject := by
  unfold canonicalDocument
  cases Workload.podSpecPath kind with
  | nil => rfl
  | cons key keys => exact Json.isObject_modifyField key _ document

theorem Run.isObject_inFull (document : Json) : (inFull document).isObject = document.isObject := by
  unfold inFull
  split
  · exact Json.isObject_mapFloats _ document
  · rw [Json.isObject_mapFloats, isObject_canonicalDocument, Json.isObject_mapFloats]

/-! ## Runs that succeed -/

/-- **Documents that all come out** are not nested too deeply. -/
theorem Run.depth_le_of_qualifyAll {place : String} {strict : Bool} {written : List Json}
    (h : ∀ document ∈ documents, document.WellFormed)
    (hall : (qualifyAll place strict documents).2 = .ok written) :
    ∀ document ∈ documents, document.depth ≤ Json.maxDepth := by
  induction documents generalizing written with
  | nil => simp
  | cons document rest ih =>
    obtain ⟨hwell, hrest⟩ := List.forall_mem_cons.1 h
    have hdepth : document.depth ≤ Json.maxDepth := by
      -- Otherwise the run would have ended here, if not for a rejected container.
      by_contra hdeep
      obtain ⟨failure, hfailure, -⟩ := exists_qualified_eq_error hwell (Nat.lt_of_not_le hdeep)
      rw [qualifyAll] at hall
      simp only [hfailure] at hall
      split at hall <;> cases hall
    refine List.forall_mem_cons.2 ⟨hdepth, ?_⟩
    rw [qualifyAll] at hall
    simp only [qualified_eq hwell hdepth] at hall
    split at hall
    · cases hall
    · cases hmore : (qualifyAll place strict rest).2 with
      | error failure =>
        rw [hmore] at hall
        cases hall
      | ok more => exact ih hrest hmore

theorem Failure.exitCode_ne_zero (failure : Failure) : failure.exitCode ≠ 0 := by
  cases failure <;> exact Nat.succ_ne_zero _

namespace Command

/-- **A run that succeeds** writes the documents of its manifest with their images in full. -/
theorem exists_output_canonicalize {source : Source} {format : Option Format} {strict : Bool}
    (h : ((Command.canonicalize source format strict).run (.ok text)).exitCode = 0) :
    ∃ documents, Manifest.read text.toList = .ok documents ∧
      ((Command.canonicalize source format strict).run (.ok text)).output =
        Report.manifest (format.getD (Run.formatOf text)) (documents.map Run.inFull) := by
  cases hread : Manifest.read text.toList with
  | error cause =>
    have hfailure : ((Command.canonicalize source format strict).run (.ok text)).failure =
        some (.manifest source.name cause) := by
      unfold run Run.withDocuments
      simp only [hread]
      rfl
    rw [Outcome.exitCode_of_failure hfailure] at h
    exact absurd h (Failure.exitCode_ne_zero _)
  -- All documents have come out, which says that none is nested too deeply and what is written.
  | ok documents =>
    refine ⟨documents, rfl, ?_⟩
    rw [run_canonicalize hread] at h ⊢
    cases hall : (Run.qualifyAll source.name strict documents).2 with
    | error failure =>
      rw [Outcome.exitCode_of_failure (Run.canonicalize_of_error hall).1] at h
      exact absurd h failure.exitCode_ne_zero
    | ok written =>
      have hwell : ∀ document ∈ documents, document.WellFormed := fun document hdocument =>
        (Manifest.wellFormed_of_read hread document hdocument).1
      have hdepth := Run.depth_le_of_qualifyAll hwell hall
      have heq := Run.qualifyAll_eq source.name strict
        fun document hdocument => ⟨hwell document hdocument, hdepth document hdocument⟩
      rw [(Run.canonicalize_of_ok hall).2]
      rw [hall] at heq
      split at heq
      · rw [Except.ok.inj heq]
      · cases heq

/-! ## Streams -/

theorem manifest_of_ne_json {format : Format} (h : format ≠ .json) (documents : List Json) :
    Report.manifest format documents = Report.manifest .yaml documents := by
  cases format with
  | json => exact absurd rfl h
  | _ => rfl

/-- **A stream that is written as YAML** is read again as its documents exactly if it is not taken
for JSON, given that YAML reads back each of them and splits the stream at its marks. Every run
that succeeds and does not write JSON writes such a stream: of objects, which are the documents of
its manifest with their images in full, in order. -/
theorem read_stream_iff (hobjects : ∀ document ∈ documents, document.isObject = true)
    (hreads : Manifest.ReadsBack documents) :
    (Manifest.read (Report.manifest .yaml documents).toList = .ok documents ↔
        Manifest.mistakenForJson documents = false) ∧
      ∀ (source : Source) (format : Option Format) (strict : Bool) (text : String),
        format.getD (Run.formatOf text) ≠ .json →
        ((Command.canonicalize source format strict).run (.ok text)).exitCode = 0 →
          ∃ given, Manifest.read text.toList = .ok given ∧
            (∀ document ∈ given.map Run.inFull, document.isObject = true) ∧
            ((Command.canonicalize source format strict).run (.ok text)).output =
              Report.manifest .yaml (given.map Run.inFull) := by
  constructor
  · cases hmistaken : Manifest.mistakenForJson documents with
    | true =>
      rw [Manifest.read_manifest_of_mistaken hmistaken]
      exact iff_of_false (nomatch ·) (nomatch ·)
    | false => exact iff_of_true (Manifest.read_manifest_of_readsBack hobjects hreads hmistaken) rfl
  · intro source format strict text hformat hzero
    obtain ⟨given, hread, houtput⟩ := exists_output_canonicalize hzero
    refine ⟨given, hread, fun document hdocument => ?_, ?_⟩
    · obtain ⟨original, horiginal, rfl⟩ := List.mem_map.1 hdocument
      rw [Run.isObject_inFull]
      exact (Manifest.wellFormed_of_read hread original horiginal).2
    · rw [houtput, manifest_of_ne_json hformat]

/-- A pod without a spec. -/
def barePod : Json := .obj [("kind", .str "Pod")]

theorem read_stream_barePod :
    Manifest.read "kind: Pod\n---\n\x7b\x7d\n".toList = .ok [barePod, .obj []] := by
  have hreads : Manifest.ReadsBack [barePod, .obj []] :=
    ⟨by decide +kernel, by decide +kernel⟩
  have htext : Report.manifest .yaml [barePod, .obj []] = "kind: Pod\n---\n\x7b\x7d\n" := by
    decide +kernel
  have hread := (read_stream_iff (by decide) hreads).1.2 rfl
  rwa [htext] at hread

/-- **An empty object in front of a pod** is written by a run and not read by another one. -/
theorem read_stream_emptyFirst :
    Manifest.ReadsBack [.obj [], barePod] ∧
      (Command.canonicalize .stdin none false).run
          (.ok "--- \x7b\x7d\n---\nkind: Pod\n") =
        .success (Report.manifest .yaml [.obj [], barePod]) [] ∧
      Manifest.read (Report.manifest .yaml [.obj [], barePod]).toList =
        .error (.json .malformed) := by
  have hreads : Manifest.ReadsBack [.obj [], barePod] :=
    ⟨by decide +kernel, by decide +kernel⟩
  exact ⟨hreads, by decide +kernel, Manifest.read_manifest_of_mistaken rfl⟩

end Command

end WorkloadImages

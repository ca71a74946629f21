import WorkloadImages.Proofs.Command.Canonicalize

/-!
# Strict runs

A strict run fails for a rejected container, whether it lists the images of a manifest or writes
them in full. The one gathers the rejected containers of all documents that have a pod spec, the
other goes through all documents and ends at the first with a rejected container. On a manifest
whose documents can be read back, the two agree on whether they fail.

## Main results

* `Run.failure_images`: the failure of a strict run that lists images
* `Command.strict_runs_agree`: which strict runs fail, and that runs that fail write nothing
-/

namespace WorkloadImages

variable {text : String} {documents : List Json}

namespace Run

/-! ## Listing images -/

/-- From a document without a pod spec no container is rejected. -/
theorem rejections_of_not_hasPodSpec {document : Json} (h : hasPodSpec document = false) :
    (collectDocument document).rejections = [] := by
  have hpath : Workload.podSpecPath (Workload.kindOf document) = [] := by
    simpa [hasPodSpec] using h
  rw [collectDocument, collect, hpath]
  rfl

/-- Passing over documents without a pod spec passes over no report of a rejected container. -/
theorem flatMap_filter_hasPodSpec {α : Type} (report : Json → List Rejection → List α)
    (h : ∀ document, report document [] = []) (documents : List Json) :
    (((documents.filter hasPodSpec).map fun document =>
      (document, collectDocument document)).flatMap fun entry =>
        report entry.1 entry.2.rejections) =
      documents.flatMap fun document => report document (collectDocument document).rejections := by
  rw [List.flatMap_map]
  induction documents with
  | nil => rfl
  | cons document rest ih =>
    rw [List.filter_cons, List.flatMap_cons]
    cases hpod : hasPodSpec document with
    | true => rw [if_pos rfl, List.flatMap_cons, ih]
    | false =>
      rw [if_neg Bool.false_ne_true, rejections_of_not_hasPodSpec hpod, h, List.nil_append, ih]

/-- **A strict run that lists images** fails for the rejected containers of all documents. -/
theorem failure_images (documents : List Json) (format : Format) :
    (images documents format true).failure =
      if documents.any Json.hasRejection then
        some (.extraction (documents.flatMap fun document => (collectDocument document).rejections))
      else none := by
  have hany : (!(documents.flatMap fun document => (collectDocument document).rejections).isEmpty) =
      documents.any Json.hasRejection := by
    rw [Bool.eq_iff_iff]
    simp [Json.hasRejection, List.flatMap_eq_nil_iff]
  have hreports :=
    flatMap_filter_hasPodSpec (fun _ rejections => rejections) (fun _ => rfl) documents
  unfold images
  dsimp only
  rw [hreports, Bool.true_and, hany]
  split <;> rfl

end Run

/-! ## Runs that fail -/

/-- A run that writes nothing if it fails. -/
def Outcome.SilentFailure (outcome : Outcome) : Prop := outcome.exitCode ≠ 0 → outcome.output = ""

theorem Outcome.silentFailure_success (output : String) (warnings : List String) :
    (success output warnings).SilentFailure := fun h => absurd rfl h

theorem Outcome.silentFailure_failed (failure : Failure) (warnings : List String) :
    (failed failure warnings).SilentFailure := fun _ => rfl

theorem Run.silentFailure_images (documents : List Json) (format : Format) (strict : Bool) :
    (images documents format strict).SilentFailure := by
  unfold images
  dsimp only
  split
  · exact Outcome.silentFailure_failed _ _
  · exact Outcome.silentFailure_success _ _

theorem Run.silentFailure_canonicalize (place : String) (documents : List Json) (format : Format)
    (strict : Bool) : (canonicalize place documents format strict).SilentFailure := by
  unfold canonicalize
  split
  · exact Outcome.silentFailure_failed _ _
  · exact Outcome.silentFailure_success _ _

theorem Run.silentFailure_withDocuments {use : String → List Json → Outcome}
    (h : ∀ text documents, (use text documents).SilentFailure) (source : Source)
    (content : Except InputError String) :
    (withDocuments source content use).SilentFailure := by
  unfold withDocuments
  split
  · exact Outcome.silentFailure_failed _ _
  · split
    · exact Outcome.silentFailure_failed _ _
    · exact h _ _

namespace Command

/-- A command that reads a manifest writes nothing if it fails, whatever the manifest is. -/
theorem silentFailure_run {command : Command} (h : command.source?.isSome)
    (content : Except InputError String) : (command.run content).SilentFailure := by
  cases command with
  | images source format strict =>
    exact Run.silentFailure_withDocuments
      (fun _ documents => Run.silentFailure_images documents format strict) source content
  | canonicalize source format strict =>
    exact Run.silentFailure_withDocuments
      (fun _ documents => Run.silentFailure_canonicalize source.name documents _ strict) source
      content
  | _ => cases h

/-! ## Strict runs on one manifest -/

theorem run_images (h : Manifest.read text.toList = .ok documents) (source : Source)
    (format : Format) (strict : Bool) :
    (Command.images source format strict).run (.ok text) =
      Run.images documents format strict := by
  unfold run Run.withDocuments
  simp only [h]

/-- **Strict runs agree on what is a failure**: on a manifest whose documents are read back from
their own text, the images are not listed, and not written in full, exactly if a container is
rejected. A run that fails writes nothing. On a manifest of one document both runs fail alike. -/
theorem strict_runs_agree :
    (∀ (command : Command) (content : Except InputError String), command.source?.isSome →
      (command.run content).exitCode ≠ 0 → (command.run content).output = "") ∧
    ∀ {text : String} {documents : List Json}, Manifest.read text.toList = .ok documents →
      (∀ document ∈ documents, Json.read document.compact.toList = .ok document) →
      ∀ (source : Source) (format : Format) (format' : Option Format),
        ((∃ document ∈ documents, document.hasRejection = true) →
          ((Command.images source format true).run (.ok text)).exitCode = 2 ∧
            ((Command.canonicalize source format' true).run (.ok text)).exitCode = 2) ∧
        (¬(∃ document ∈ documents, document.hasRejection = true) →
          ((Command.images source format true).run (.ok text)).exitCode = 0 ∧
            ((Command.canonicalize source format' true).run (.ok text)).exitCode = 0) ∧
        (documents.length = 1 →
          ((Command.images source format true).run (.ok text)).failure =
            ((Command.canonicalize source format' true).run (.ok text)).failure) := by
  refine ⟨fun command content hsource => silentFailure_run hsource content, ?_⟩
  intro text documents hread hback source format format'
  have hdepth : ∀ document ∈ documents, document.depth ≤ Json.maxDepth := fun document hdocument =>
    (Json.wellFormed_of_read (hback document hdocument)).2
  have himages : ((Command.images source format true).run (.ok text)).failure =
      if documents.any Json.hasRejection then
        some (.extraction (documents.flatMap fun document => (collectDocument document).rejections))
      else none := by
    rw [run_images hread]
    exact Run.failure_images documents format
  obtain ⟨hcanonicalize, -⟩ := run_canonicalize_of_depth hread hdepth source format' true
  refine ⟨fun hrejected => ?_, fun haccepted => ?_, fun hlength => ?_⟩
  · rw [if_pos (List.any_eq_true.2 hrejected)] at himages
    have hfound := (find?_hasRejection_eq_none_iff true).not.2 fun h => h ⟨rfl, hrejected⟩
    obtain ⟨document, hdocument⟩ := Option.ne_none_iff_exists'.1 hfound
    rw [hdocument, Option.map_some] at hcanonicalize
    exact ⟨Outcome.exitCode_of_failure himages, Outcome.exitCode_of_failure hcanonicalize⟩
  · rw [if_neg fun h => haccepted (List.any_eq_true.1 h)] at himages
    have hnone := (find?_hasRejection_eq_none_iff true).2 fun h => haccepted h.2
    rw [hnone, Option.map_none] at hcanonicalize
    exact ⟨Outcome.exitCode_of_success himages, Outcome.exitCode_of_success hcanonicalize⟩
  · -- The first document with a rejected container is the only one.
    obtain ⟨document, rfl⟩ := List.length_eq_one_iff.1 hlength
    rw [himages, hcanonicalize]
    cases hrejected : document.hasRejection <;> simp [hrejected]

/-- A pod with a container that has no image. -/
def podWithoutImage : Json :=
  .obj [("kind", .str "Pod"), ("spec", .obj [("containers", .arr [.obj [("name", .str "a")]])])]

/-- The manifest of the pod. -/
def manifestWithoutImage : String := "kind: Pod\nspec:\n  containers:\n  - name: a\n"

theorem strict_runs_agree_manifestWithoutImage :
    ((Command.images .stdin .json true).run (.ok manifestWithoutImage)).exitCode = 2 ∧
      ((Command.canonicalize .stdin none true).run (.ok manifestWithoutImage)).exitCode = 2 ∧
      ((Command.images .stdin .json true).run (.ok manifestWithoutImage)).failure =
        ((Command.canonicalize .stdin none true).run (.ok manifestWithoutImage)).failure ∧
      ((Command.images .stdin .json true).run (.ok manifestWithoutImage)).output = "" := by
  have hread : Manifest.read manifestWithoutImage.toList = .ok [podWithoutImage] := by
    decide +kernel
  have hback : ∀ document ∈ [podWithoutImage],
      Json.read document.compact.toList = .ok document := by
    decide +kernel
  have hrejected : ∃ document ∈ [podWithoutImage], document.hasRejection = true :=
    ⟨podWithoutImage, List.mem_singleton.2 rfl, by decide +kernel⟩
  obtain ⟨hsilent, hagree⟩ := strict_runs_agree
  obtain ⟨hfail, -, hsame⟩ := hagree hread hback .stdin .json none
  obtain ⟨himages, hcanonicalize⟩ := hfail hrejected
  refine ⟨himages, hcanonicalize, hsame rfl, hsilent _ _ rfl ?_⟩
  rw [himages]
  decide

end Command

end WorkloadImages

import WorkloadImages.Proofs.Command.Strict
import WorkloadImages.Proofs.Workload.Verdicts

/-!
# Warnings of rejected containers

A run that is not strict warns of each rejected container once, whether it lists the images of a
manifest or writes them in full: document by document, and in a document in the order in which it is
read. What is said of a container is the same, and only the place differs. A strict run that writes
images in full names the rejected containers in its failure alone. A strict run that lists images
does so too, but it has warned of them all before.

## Main definitions

* `rejectedIn`: the rejected containers of documents, in order
* `Report.warningsOf`: the warnings of them

## Main results

* `Run.warnings_images`: the warnings of a run that lists images
* `Run.warnings_qualifyAll`, `Run.warnings_qualifyAll_strict`: those of a run that writes them in
  full
* `Command.warnings_run_iff`: which runs report each rejected container once
-/

namespace WorkloadImages

variable {text : String} {documents : List Json}

/-! ## Rejected containers -/

/-- The rejected containers of documents, each with its document: list by list, and entry by
entry. -/
def rejectedIn (documents : List Json) : List (Json × Rejection) :=
  documents.flatMap fun document =>
    (ContainerList.all.flatMap fun list =>
      (verdictsOf document (Workload.kindOf document) list).filterMap Verdict.rejection?).map
        (document, ·)

theorem rejectedIn_cons (document : Json) (rest : List Json) :
    rejectedIn (document :: rest) =
      (collectDocument document).rejections.map (document, ·) ++ rejectedIn rest := by
  rw [rejectedIn, List.flatMap_cons, collectDocument, rejections_collect]
  rfl

theorem map_snd_rejectedIn (documents : List Json) :
    (rejectedIn documents).map Prod.snd =
      documents.flatMap fun document => (collectDocument document).rejections := by
  induction documents with
  | nil => rfl
  | cons document rest ih =>
    rw [rejectedIn_cons, List.map_append, ih, List.flatMap_cons, List.map_map]
    simp [Function.comp_def]

theorem rejectedIn_eq_nil_iff :
    rejectedIn documents = [] ↔ ¬ ∃ document ∈ documents, document.hasRejection = true := by
  rw [← List.map_eq_nil_iff, map_snd_rejectedIn, List.flatMap_eq_nil_iff]
  simp [Json.hasRejection]

/-- The warning of a rejected container in a place. -/
def Report.warning (place : String) (rejection : Rejection) : String :=
  "⚠ " ++ place ++ ": " ++ rejection.message

/-- The warnings of the rejected containers of documents, each in the place of its document. -/
def Report.warningsOf (placeOf : Json → String) (documents : List Json) : List String :=
  (rejectedIn documents).map fun entry => warning (placeOf entry.1) entry.2

theorem Report.warningsOf_cons (placeOf : Json → String) (document : Json) (rest : List Json) :
    warningsOf placeOf (document :: rest) =
      warnings (placeOf document) (collectDocument document).rejections ++
        warningsOf placeOf rest := by
  rw [warningsOf, rejectedIn_cons, List.map_append, List.map_map]
  rfl

theorem Report.warningsOf_eq_flatMap (placeOf : Json → String) (documents : List Json) :
    warningsOf placeOf documents = documents.flatMap fun document =>
      warnings (placeOf document) (collectDocument document).rejections := by
  induction documents with
  | nil => rfl
  | cons document rest ih => rw [warningsOf_cons, ih, List.flatMap_cons]

/-! ## Runs -/

namespace Run

/-- **A run that lists images** warns of every rejected container, strict or not. -/
theorem warnings_images (documents : List Json) (format : Format) (strict : Bool) :
    (images documents format strict).warnings = Report.warningsOf titleOf documents := by
  have hreports := flatMap_filter_hasPodSpec
    (fun document rejections => Report.warnings (titleOf document) rejections) (fun _ => rfl)
    documents
  rw [Report.warningsOf_eq_flatMap, ← hreports]
  unfold images
  dsimp only
  split <;> rfl

/-- **A run that writes images in full** warns of every rejected container, if all documents come
out. -/
theorem warnings_qualifyAll (place : String)
    (h : ∀ document ∈ documents, document.WellFormed ∧ document.depth ≤ Json.maxDepth) :
    (qualifyAll place false documents).1 = Report.warningsOf (fun _ => place) documents := by
  induction documents with
  | nil => rfl
  | cons document rest ih =>
    obtain ⟨⟨hwell, hdepth⟩, hrest⟩ := List.forall_mem_cons.1 h
    rw [qualifyAll, Report.warningsOf_cons, ← ih hrest]
    simp only [Bool.false_and, Bool.false_eq_true, if_false, qualified_eq hwell hdepth]

/-- **A strict run that writes images in full** warns of nothing: it goes on only behind documents
without a rejected container. -/
theorem warnings_qualifyAll_strict (place : String) (documents : List Json) :
    (qualifyAll place true documents).1 = [] := by
  induction documents with
  | nil => rfl
  | cons document rest ih =>
    rw [qualifyAll]
    dsimp only
    split
    · rfl
    · next haccepted =>
      have hnone : (collectDocument document).rejections = [] := by simpa using haccepted
      have hwarnings : Report.warnings place (collectDocument document).rejections = [] := by
        rw [hnone]
        rfl
      rw [hwarnings]
      split
      · rfl
      · exact ih

theorem warnings_canonicalize (place : String) (documents : List Json) (format : Format)
    (strict : Bool) :
    (canonicalize place documents format strict).warnings =
      (qualifyAll place strict documents).1 := by
  unfold canonicalize
  split
  · next heq => rw [heq]; rfl
  · next heq => rw [heq]; rfl

end Run

namespace Command

/-- **Which runs report each rejected container once**, on a manifest whose documents are read back
from their own text. Runs that are not strict succeed, with one warning of each rejected container;
the warnings of both commands are of the same containers in the same order. A strict run that writes
images in full warns of nothing, and fails for those of the first document that has any. A strict
run that lists images fails for those of all documents, and it has no warnings exactly if there are
none: it has the same warnings as one that is not strict. -/
theorem warnings_run_iff (h : Manifest.read text.toList = .ok documents)
    (hback : ∀ document ∈ documents, Json.read document.compact.toList = .ok document)
    (source : Source) (format : Format) (format' : Option Format) :
    (((Command.images source format false).run (.ok text)).failure = none ∧
      ((Command.images source format false).run (.ok text)).warnings =
        Report.warningsOf Run.titleOf documents) ∧
    (((Command.canonicalize source format' false).run (.ok text)).failure = none ∧
      ((Command.canonicalize source format' false).run (.ok text)).warnings =
        Report.warningsOf (fun _ => source.name) documents) ∧
    (((Command.canonicalize source format' true).run (.ok text)).failure =
        ((documents.find? Json.hasRejection).map fun document =>
          .extraction ((rejectedIn [document]).map Prod.snd)) ∧
      ((Command.canonicalize source format' true).run (.ok text)).warnings = []) ∧
    ((Command.images source format true).run (.ok text)).failure =
      (if rejectedIn documents = [] then none
        else some (.extraction ((rejectedIn documents).map Prod.snd))) ∧
    ((Command.images source format true).run (.ok text)).warnings =
      Report.warningsOf Run.titleOf documents ∧
    (((Command.images source format true).run (.ok text)).warnings = [] ↔
      ¬ ∃ document ∈ documents, document.hasRejection = true) := by
  have hgood : ∀ document ∈ documents, document.WellFormed ∧ document.depth ≤ Json.maxDepth :=
    fun document hdocument => Json.wellFormed_of_read (hback document hdocument)
  obtain ⟨hloose, -⟩ := run_canonicalize_of_depth h (fun document hdocument =>
    (hgood document hdocument).2) source format' false
  obtain ⟨hstrict, -⟩ := run_canonicalize_of_depth h (fun document hdocument =>
    (hgood document hdocument).2) source format' true
  have hsingle (document : Json) : (rejectedIn [document]).map Prod.snd =
      (collectDocument document).rejections := by
    rw [map_snd_rejectedIn, List.flatMap_cons, List.flatMap_nil, List.append_nil]
  simp only [run_images h]
  refine ⟨⟨?_, Run.warnings_images ..⟩, ⟨?_, ?_⟩, ⟨?_, ?_⟩, ?_, Run.warnings_images .., ?_⟩
  · unfold Run.images
    rfl
  · rw [hloose]
    simp
  · rw [run_canonicalize h, Run.warnings_canonicalize, Run.warnings_qualifyAll _ hgood]
  · rw [hstrict]
    simp only [Bool.true_and, hsingle]
  · rw [run_canonicalize h, Run.warnings_canonicalize, Run.warnings_qualifyAll_strict]
  · rw [Run.failure_images, map_snd_rejectedIn]
    by_cases hrejected : ∃ document ∈ documents, document.hasRejection = true
    · rw [if_pos (List.any_eq_true.2 hrejected),
        if_neg (rejectedIn_eq_nil_iff.not.2 (not_not.2 hrejected))]
    · rw [if_neg fun hany => hrejected (List.any_eq_true.1 hany),
        if_pos (rejectedIn_eq_nil_iff.2 hrejected)]
  · rw [Run.warnings_images, Report.warningsOf, List.map_eq_nil_iff, rejectedIn_eq_nil_iff]

/-- A service, from which no image is read. -/
def service : Json := .obj [("kind", .str "Service")]

/-- A job with a container that has no name and one the name of which is a number. -/
def jobWithoutNames : Json :=
  .obj [("kind", .str "Job"), ("spec", .obj [("template", .obj [("spec", .obj
    [("containers", .arr [.obj [("image", .str "nginx")], .obj [("name", .int 1)]])])])])]

/-- The manifest of a pod, the service and the job. -/
def manifestOfThree : String :=
  "kind: Pod\nspec:\n  containers:\n  - name: a\n---\nkind: Service\n---\nkind: Job\nspec:\n" ++
    "  template:\n    spec:\n      containers:\n      - image: nginx\n      - name: 1\n"

theorem warnings_run_iff_manifestOfThree :
    ((Command.images .stdin .json false).run (.ok manifestOfThree)).warnings =
        ["⚠ Pod/<unnamed>: /spec/containers/0/image: bad image: docker.io/: " ++
            "invalid reference format: docker.io/",
          "⚠ Job/<unnamed>: /spec/template/spec/containers/0: invalid container: " ++
            "missing required field `name`",
          "⚠ Job/<unnamed>: /spec/template/spec/containers/1: invalid container: " ++
            "field `name` must be a string"] ∧
      ((Command.canonicalize .stdin none false).run (.ok manifestOfThree)).warnings.length = 3 ∧
      ((Command.canonicalize .stdin none true).run (.ok manifestOfThree)).warnings = [] := by
  have hread : Manifest.read manifestOfThree.toList =
      .ok [podWithoutImage, service, jobWithoutNames] := by
    decide +kernel
  have hback : ∀ document ∈ [podWithoutImage, service, jobWithoutNames],
      Json.read document.compact.toList = .ok document := by
    decide +kernel
  obtain ⟨⟨-, himages⟩, ⟨-, hcanonicalize⟩, ⟨-, hstrict⟩, -⟩ :=
    warnings_run_iff hread hback .stdin .json none
  refine ⟨himages.trans ?_, ?_, hstrict⟩
  · decide +kernel
  · rw [hcanonicalize]
    decide +kernel

/-- **A container is reported twice** by a strict run that lists images: there is a warning of it,
and it is named in the failure. -/
theorem warnings_images_strict_manifestWithoutImage :
    Manifest.read manifestWithoutImage.toList = .ok [podWithoutImage] ∧
      Json.read podWithoutImage.compact.toList = .ok podWithoutImage ∧
      (Command.images .stdin .json true).run (.ok manifestWithoutImage) =
        .failed
          (.extraction
            [.image "/spec/containers/0/image" "docker.io/" (.invalidFormat "docker.io/")])
          ["⚠ Pod/<unnamed>: /spec/containers/0/image: bad image: docker.io/: " ++
            "invalid reference format: docker.io/"] := by
  decide +kernel

end Command

end WorkloadImages

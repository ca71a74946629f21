import WorkloadImages.Proofs.Workload.Reserialized
import WorkloadImages.Proofs.Yaml.Values

/-!
# Runs that write images in full

A run goes through the documents of a manifest in order, and ends at the first one that does not
come out. For a manifest that has been read this is one that is nested too deeply to be read back
from its own text, or, in a strict run, one with a rejected container.

## Main results

* `Run.qualifyAll_eq`: documents that are not nested too deeply
* `Run.exists_qualifyAll_eq_error`: documents of which one is nested too deeply
* `Command.exitCode_canonicalize_iff`: which runs succeed, and what they write
-/

namespace WorkloadImages

variable {text : String} {documents : List Json}

/-- Whether a container of a document is rejected. -/
def Json.hasRejection (document : Json) : Bool := !(collectDocument document).rejections.isEmpty

namespace Run

/-! ## Documents -/

/-- **Documents that are not nested too deeply** come out with their images in full, all of them or
those before the first one with a rejected container in a strict run. -/
theorem qualifyAll_eq (place : String) (strict : Bool)
    (h : ∀ document ∈ documents, document.WellFormed ∧ document.depth ≤ Json.maxDepth) :
    (qualifyAll place strict documents).2 =
      match documents.find? fun document => strict && document.hasRejection with
      | none => .ok (documents.map inFull)
      | some document => .error (.extraction (collectDocument document).rejections) := by
  -- The first document with a rejected container ends the run, whatever has come out before it.
  induction documents with
  | nil => rfl
  | cons document rest ih =>
    obtain ⟨⟨hwell, hdepth⟩, hrest⟩ := List.forall_mem_cons.1 h
    have hthrough := qualified_eq hwell hdepth
    have ih := ih hrest
    rw [qualifyAll, List.find?_cons]
    dsimp only
    rw [← Json.hasRejection]
    cases hrejected : strict && document.hasRejection with
    | true => simp only [if_true]
    | false =>
      simp only [Bool.false_eq_true, if_false, hthrough, ih]
      cases rest.find? fun document => strict && document.hasRejection <;> rfl

/-- **Documents of which one is nested too deeply** do not all come out. -/
theorem exists_qualifyAll_eq_error (place : String)
    (h : ∀ document ∈ documents, document.WellFormed)
    (hdeep : ∃ document ∈ documents, Json.maxDepth < document.depth) :
    ∃ failure, (qualifyAll place false documents).2 = .error failure ∧
      (failure.exitCode = 1 ∨ failure.exitCode = 3) := by
  induction documents with
  | nil => simp at hdeep
  | cons document rest ih =>
    obtain ⟨hwell, hrest⟩ := List.forall_mem_cons.1 h
    rw [qualifyAll]
    simp only [Bool.false_and, Bool.false_eq_true, if_false]
    rcases Nat.lt_or_ge Json.maxDepth document.depth with hdepth | hdepth
    · obtain ⟨failure, hfailure, hcode⟩ := exists_qualified_eq_error hwell hdepth
      refine ⟨failure, by simp only [hfailure], ?_⟩
      split at hcode
      · exact Or.inl hcode
      · exact Or.inr hcode
    · -- The document comes out, and one behind it does not.
      obtain ⟨deep, hmem, hdeep⟩ := hdeep
      have hmem : deep ∈ rest := by
        rcases List.mem_cons.1 hmem with rfl | hmem
        · omega
        · exact hmem
      obtain ⟨failure, hfailure, hcode⟩ := ih hrest ⟨deep, hmem, hdeep⟩
      refine ⟨failure, ?_, hcode⟩
      simp only [qualified_eq hwell hdepth, hfailure]
      rfl

/-! ## Outcomes -/

variable {place : String} {format : Format} {strict : Bool}

theorem canonicalize_of_ok {written : List Json}
    (h : (qualifyAll place strict documents).2 = .ok written) :
    (canonicalize place documents format strict).failure = none ∧
      (canonicalize place documents format strict).output = Report.manifest format written := by
  unfold canonicalize
  cases hall : qualifyAll place strict documents with
  | mk warnings result =>
    rw [hall] at h
    obtain rfl : result = .ok written := h
    exact ⟨rfl, rfl⟩

theorem canonicalize_of_error {failure : Failure}
    (h : (qualifyAll place strict documents).2 = .error failure) :
    (canonicalize place documents format strict).failure = some failure ∧
      (canonicalize place documents format strict).output = "" := by
  unfold canonicalize
  cases hall : qualifyAll place strict documents with
  | mk warnings result =>
    rw [hall] at h
    obtain rfl : result = .error failure := h
    exact ⟨rfl, rfl⟩

end Run

theorem Outcome.exitCode_of_failure {outcome : Outcome} {failure : Failure}
    (h : outcome.failure = some failure) : outcome.exitCode = failure.exitCode := by
  rw [exitCode, h]
  rfl

theorem Outcome.exitCode_of_success {outcome : Outcome} (h : outcome.failure = none) :
    outcome.exitCode = 0 := by
  rw [exitCode, h]
  rfl

namespace Command

/-! ## Runs on a manifest -/

theorem run_canonicalize (h : Manifest.read text.toList = .ok documents) (source : Source)
    (format : Option Format) (strict : Bool) :
    (Command.canonicalize source format strict).run (.ok text) =
      Run.canonicalize source.name documents (format.getD (Run.formatOf text)) strict := by
  unfold run Run.withDocuments
  simp only [h]

/-- A run on documents that are not nested too deeply: a strict one ends at the first document with
a rejected container, and one that does not end writes all documents. -/
theorem run_canonicalize_of_depth (h : Manifest.read text.toList = .ok documents)
    (hdepth : ∀ document ∈ documents, document.depth ≤ Json.maxDepth) (source : Source)
    (format : Option Format) (strict : Bool) :
    ((Command.canonicalize source format strict).run (.ok text)).failure =
        ((documents.find? fun document => strict && document.hasRejection).map
          fun document => .extraction (collectDocument document).rejections) ∧
      ((documents.find? fun document => strict && document.hasRejection) = none →
        ((Command.canonicalize source format strict).run (.ok text)).output =
          Report.manifest (format.getD (Run.formatOf text)) (documents.map Run.inFull)) := by
  have hall : ∀ document ∈ documents, document.WellFormed ∧ document.depth ≤ Json.maxDepth :=
    fun document hdocument =>
      ⟨(Manifest.wellFormed_of_read h document hdocument).1, hdepth document hdocument⟩
  have hqualified := Run.qualifyAll_eq source.name strict hall
  rw [run_canonicalize h]
  split at hqualified
  · next hnone =>
    obtain ⟨hfailure, houtput⟩ := Run.canonicalize_of_ok hqualified
    exact ⟨by rw [hfailure, hnone]; rfl, fun _ => houtput⟩
  · next document hsome =>
    obtain ⟨hfailure, -⟩ := Run.canonicalize_of_error hqualified
    refine ⟨by rw [hfailure, hsome]; rfl, fun hnone => ?_⟩
    rw [hnone] at hsome
    cases hsome

/-- A strict run is stopped by any document with a rejected container, another one by none. -/
theorem find?_hasRejection_eq_none_iff (strict : Bool) :
    (documents.find? fun document => strict && document.hasRejection) = none ↔
      ¬(strict = true ∧ ∃ document ∈ documents, document.hasRejection = true) := by
  rw [List.find?_eq_none]
  cases strict <;> simp

/-- A run on documents that are not nested too deeply succeeds, unless it is strict and a container
is rejected; then it writes all documents. -/
theorem exitCode_of_depth (h : Manifest.read text.toList = .ok documents)
    (hdepth : ∀ document ∈ documents, document.depth ≤ Json.maxDepth) (source : Source)
    (format : Option Format) (strict : Bool) :
    ((Command.canonicalize source format strict).run (.ok text)).exitCode =
        (if strict ∧ ∃ document ∈ documents, document.hasRejection then 2 else 0) ∧
      (((Command.canonicalize source format strict).run (.ok text)).exitCode = 0 →
        ((Command.canonicalize source format strict).run (.ok text)).output =
          Report.manifest (format.getD (Run.formatOf text)) (documents.map Run.inFull)) := by
  obtain ⟨hfailure, houtput⟩ := run_canonicalize_of_depth h hdepth source format strict
  by_cases hrejected : strict = true ∧ ∃ document ∈ documents, document.hasRejection = true
  · have hsome := (find?_hasRejection_eq_none_iff strict).not.2 (not_not.2 hrejected)
    obtain ⟨document, hdocument⟩ := Option.ne_none_iff_exists'.1 hsome
    rw [hdocument, Option.map_some] at hfailure
    have hcode := Outcome.exitCode_of_failure hfailure
    rw [if_pos hrejected, hcode]
    exact ⟨rfl, fun hzero => nomatch hzero⟩
  · have hnone := (find?_hasRejection_eq_none_iff strict).2 hrejected
    rw [hnone, Option.map_none] at hfailure
    rw [if_neg hrejected, Outcome.exitCode_of_success hfailure]
    exact ⟨rfl, fun _ => houtput hnone⟩

/-- A run on documents of which one is nested too deeply ends with an internal error or an error of
the patch. -/
theorem exitCode_of_deep (h : Manifest.read text.toList = .ok documents)
    (hdeep : ∃ document ∈ documents, Json.maxDepth < document.depth) (source : Source)
    (format : Option Format) :
    ((Command.canonicalize source format false).run (.ok text)).exitCode = 1 ∨
      ((Command.canonicalize source format false).run (.ok text)).exitCode = 3 := by
  obtain ⟨failure, hfailure, hcode⟩ := Run.exists_qualifyAll_eq_error source.name
    (fun document hdocument => (Manifest.wellFormed_of_read h document hdocument).1) hdeep
  rw [run_canonicalize h, Outcome.exitCode_of_failure (Run.canonicalize_of_error hfailure).1]
  exact hcode

/-- **Writing the images of a manifest in full** succeeds exactly if no document is nested too
deeply; otherwise the run ends with an internal error or an error of the patch. If no document is, a
strict run ends for a rejected container or succeeds as well, and a run that succeeds writes one
document for each one of the manifest, in order. -/
theorem exitCode_canonicalize_iff (h : Manifest.read text.toList = .ok documents)
    (source : Source) (format : Option Format) :
    (((Command.canonicalize source format false).run (.ok text)).exitCode = 0 ↔
        ∀ document ∈ documents, document.depth ≤ Json.maxDepth) ∧
      ((Command.canonicalize source format false).run (.ok text)).exitCode ∈ [0, 1, 3] ∧
      ((∀ document ∈ documents, document.depth ≤ Json.maxDepth) → ∀ strict,
        ((Command.canonicalize source format strict).run (.ok text)).exitCode =
            (if strict ∧ ∃ document ∈ documents, document.hasRejection then 2 else 0) ∧
          (((Command.canonicalize source format strict).run (.ok text)).exitCode = 0 →
            ((Command.canonicalize source format strict).run (.ok text)).output =
              Report.manifest (format.getD (Run.formatOf text))
                (documents.map Run.inFull))) := by
  have hshallow := fun hdepth => exitCode_of_depth h hdepth source format
  by_cases hdepth : ∀ document ∈ documents, document.depth ≤ Json.maxDepth
  · have hzero := (hshallow hdepth false).1
    simp only [Bool.false_eq_true, false_and, if_false] at hzero
    exact ⟨iff_of_true hzero hdepth, by simp [hzero], hshallow⟩
  · have hcode := exitCode_of_deep h (by simpa using hdepth) source format
    refine ⟨iff_of_false (fun hzero => ?_) hdepth, ?_, hshallow⟩
    · omega
    · rcases hcode with hcode | hcode <;> simp [hcode]

/-! ## Two manifests -/

/-- The manifest of a pod. -/
def podManifest : String := "kind: Pod\nspec:\n  containers:\n  - name: a\n    image: nginx\n"

/-- The pod of the manifest. -/
def podOfManifest : Json :=
  .obj [("kind", .str "Pod"), ("spec", .obj [("containers", .arr
    [.obj [("image", .str "nginx"), ("name", .str "a")]])])]

theorem read_podManifest : Manifest.read podManifest.toList = .ok [podOfManifest] := by
  decide +kernel

theorem exitCode_canonicalize_podManifest :
    ((Command.canonicalize .stdin none false).run (.ok podManifest)).exitCode = 0 ∧
      ((Command.canonicalize .stdin none true).run (.ok podManifest)).exitCode = 0 := by
  have hdepth : ∀ document ∈ [podOfManifest], document.depth ≤ Json.maxDepth := by decide
  obtain ⟨hloose, -, hstrict⟩ := exitCode_canonicalize_iff read_podManifest .stdin none
  have hcontainers : ¬((true : Bool) = true ∧
      ∃ document ∈ [podOfManifest], document.hasRejection = true) := by decide +kernel
  exact ⟨hloose.2 hdepth, (hstrict hdepth true).1.trans (if_neg hcontainers)⟩

/-- A text inside so many sequences. -/
def inSequences : Nat → Json
  | 0 => .str "b"
  | levels + 1 => .arr [inSequences levels]

/-- The manifest of a document with a text inside so many sequences. -/
def nestedManifest (levels : Nat) : String :=
  String.ofList
    ("a:\n".toList ++ (List.replicate levels ['-', ' ']).flatten ++ ['b', '\n'])

/-- **A manifest that is read and not written in full**: YAML allows one more container in another
than JSON, through which every document goes. -/
theorem exitCode_canonicalize_nestedManifest :
    Manifest.read (nestedManifest 127).toList = .ok [.obj [("a", inSequences 127)]] ∧
      ((Command.canonicalize .stdin none false).run (.ok (nestedManifest 127))).exitCode = 1 := by
  have hread : Manifest.read (nestedManifest 127).toList = .ok [.obj [("a", inSequences 127)]] := by
    unfold nestedManifest
    simp only [String.toList_ofList]
    decide +kernel
  refine ⟨hread, ?_⟩
  obtain ⟨hwell, -⟩ := Manifest.wellFormed_of_read hread _ (List.mem_singleton.2 rfl)
  have hdeep : Json.maxDepth < (Json.obj [("a", inSequences 127)]).depth := by decide +kernel
  obtain ⟨failure, hfailure, hcode⟩ := Run.exists_qualified_eq_error hwell hdeep
  have hall : (Run.qualifyAll Source.stdin.name false [.obj [("a", inSequences 127)]]).2 =
      .error failure := by
    rw [Run.qualifyAll]
    simp only [Bool.false_and, Bool.false_eq_true, if_false, hfailure]
  have hnone : (collectDocument (.obj [("a", inSequences 127)])).inventory.patches.isEmpty =
      true := rfl
  rw [run_canonicalize hread, Outcome.exitCode_of_failure (Run.canonicalize_of_error hall).1, hcode,
    if_pos hnone]

end Command

end WorkloadImages

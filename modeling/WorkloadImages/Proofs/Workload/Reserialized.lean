import WorkloadImages.Command.Run
import WorkloadImages.Proofs.Json.ReadBack
import WorkloadImages.Proofs.Workload.Canonical

/-!
# Documents that are written and read again

To have its images written in full, a document is written as text, patched, and read again. The
numbers in it do not count for its images, and images in full make it no deeper. So a document that
can be read back at all goes through all of this, and comes out with its images in full.

## Main definitions

* `Run.inFull`: the document that comes out

## Main results

* `collectDocument_mapFloats`: what is collected whatever the double precision numbers are
* `noDeeper_canonicalDocument`: images in full make a document no deeper
* `Run.qualified_eq`: a document that is not nested too deeply goes through
* `Run.exists_qualified_eq_error`: one that is nested too deeply does not
-/

namespace WorkloadImages

variable {document : Json} {change : Binary64 → Binary64}

/-! ## Other numbers -/

namespace Json

theorem asString?_mapFloats (change : Binary64 → Binary64) (value : Json) :
    (value.mapFloats change).asString? = value.asString? := by
  cases value <;> simp [mapFloats, asString?]

theorem asObject?_mapFloats (change : Binary64 → Binary64) (value : Json) :
    (value.mapFloats change).asObject? =
      value.asObject?.map (Fields.mapValues (mapFloats change)) := by
  cases value with
  | obj fields =>
    rw [mapFloats_obj]
    rfl
  | _ => simp [mapFloats, asObject?]

theorem asArray?_mapFloats (change : Binary64 → Binary64) (value : Json) :
    (value.mapFloats change).asArray? = value.asArray?.map (List.map (mapFloats change)) := by
  cases value <;> simp [mapFloats, mapFloatsItems_eq, asArray?]

theorem field?_mapFloats (change : Binary64 → Binary64) (key : String) (value : Json) :
    (value.mapFloats change).field? key = (value.field? key).map (mapFloats change) := by
  cases value with
  | obj fields =>
    rw [mapFloats_obj]
    exact Fields.get?_mapValues (mapFloats change) key fields
  | _ => simp [mapFloats, field?]

theorem atPath?_mapFloats (change : Binary64 → Binary64) (value : Json) (path : List String) :
    (value.mapFloats change).atPath? path = (value.atPath? path).map (mapFloats change) := by
  induction path generalizing value with
  | nil => rfl
  | cons key keys ih =>
    rw [atPath?_cons, atPath?_cons, field?_mapFloats]
    cases value.field? key with
    | none => rfl
    | some inner => exact ih inner

theorem itemsAt?_mapFloats (change : Binary64 → Binary64) (value : Json) (path : List String) :
    (value.mapFloats change).itemsAt? path =
      (value.itemsAt? path).map (List.map (mapFloats change)) := by
  unfold itemsAt?
  rw [atPath?_mapFloats]
  cases value.atPath? path with
  | none => rfl
  | some inner => exact asArray?_mapFloats change inner

end Json

theorem containerTexts_mapValues (change : Binary64 → Binary64) (fields : Fields Json) :
    containerTexts (fields.mapValues (Json.mapFloats change)) = containerTexts fields := by
  have hrequired : ∀ field, requiredText (fields.mapValues (Json.mapFloats change)) field =
      requiredText fields field := by
    intro field
    unfold requiredText
    rw [Fields.get?_mapValues]
    cases Fields.get? field fields with
    | none => rfl
    | some value => simp only [Option.map_some, Json.asString?_mapFloats]
  have hoptional : ∀ field, optionalText (fields.mapValues (Json.mapFloats change)) field =
      optionalText fields field := by
    intro field
    unfold optionalText
    rw [Fields.get?_mapValues]
    cases Fields.get? field fields with
    | none => rfl
    | some value => simp only [Option.map_some, Json.asString?_mapFloats]
  rw [containerTexts, containerTexts, hrequired, hoptional]

theorem readContainer_mapValues (change : Binary64 → Binary64) (pointer : Pointer)
    (fields : Fields Json) :
    readContainer pointer (fields.mapValues (Json.mapFloats change)) =
      readContainer pointer fields := by
  rw [readContainer, readContainer, containerTexts_mapValues]

theorem readList_mapFloats (change : Binary64 → Binary64) (document : Json)
    (path : List String) : readList (document.mapFloats change) path = readList document path := by
  unfold readList
  rw [Json.itemsAt?_mapFloats]
  cases document.itemsAt? path with
  | none => rfl
  | some items =>
    simp only [Option.map_some, Option.getD_some, List.zipIdx_map, List.filterMap_map]
    refine List.filterMap_congr fun entry _ => ?_
    obtain ⟨item, index⟩ := entry
    simp only [Function.comp_apply, Prod.map_apply, Json.asObject?_mapFloats, id_eq]
    cases item.asObject? with
    | none => rfl
    | some fields => exact congrArg some (readContainer_mapValues change _ fields)

theorem collect_mapFloats (change : Binary64 → Binary64) (document : Json) (kind : String) :
    collect (document.mapFloats change) kind = collect document kind := by
  unfold collect collectAt
  simp only [readList_mapFloats]

theorem kindOf_mapFloats (change : Binary64 → Binary64) (document : Json) :
    Workload.kindOf (document.mapFloats change) = Workload.kindOf document := by
  unfold Workload.kindOf Workload.kindOf?
  rw [Json.field?_mapFloats]
  cases document.field? "kind" with
  | none => rfl
  | some kind => simp only [Option.map_some, Json.asString?_mapFloats]

/-- **What is collected from a document** does not depend on its double precision numbers. -/
theorem collectDocument_mapFloats (change : Binary64 → Binary64) (document : Json) :
    collectDocument (document.mapFloats change) = collectDocument document := by
  rw [collectDocument, collectDocument, kindOf_mapFloats, collect_mapFloats]

/-! ## The depth of images in full -/

namespace Json.NoDeeper

theorem trans {first second third : Json} (h : NoDeeper first second)
    (h' : NoDeeper second third) : NoDeeper first third :=
  ⟨fun hthird => h.wellFormed (h'.wellFormed hthird), h.depth_le.trans h'.depth_le⟩

/-- A change of a field that makes it no deeper makes the value no deeper. -/
theorem modifyField {change : Json → Json} (h : ∀ inner, NoDeeper (change inner) inner)
    (key : String) (value : Json) : NoDeeper (value.modifyField key change) value := by
  cases value with
  | obj fields =>
    refine obj (Fields.map_fst_modify key change fields) ?_
    intro field hfield
    induction fields with
    | nil => cases hfield
    | cons entry rest ih =>
      obtain ⟨k, v⟩ := entry
      rw [Fields.modify] at hfield
      split at hfield
      · rcases List.mem_cons.1 hfield with rfl | hfield
        · exact ⟨(k, v), List.mem_cons_self, h v⟩
        · exact ⟨field, List.mem_cons_of_mem _ hfield, refl field.2⟩
      · rcases List.mem_cons.1 hfield with rfl | hfield
        · exact ⟨(k, v), List.mem_cons_self, refl v⟩
        · obtain ⟨old, hold, hno⟩ := ih hfield
          exact ⟨old, List.mem_cons_of_mem _ hold, hno⟩
  | _ => exact refl _

theorem modifyPath {change : Json → Json} (h : ∀ inner, NoDeeper (change inner) inner)
    (path : List String) (value : Json) : NoDeeper (value.modifyPath path change) value := by
  induction path generalizing value with
  | nil => exact h value
  | cons key keys ih => exact modifyField (fun inner => ih inner) key value

theorem modifyLists {changes : ContainerList → Json → Json}
    (h : ∀ list inner, NoDeeper (changes list inner) inner) (podSpec : Json) :
    NoDeeper (podSpec.modifyLists changes) podSpec := by
  rw [modifyLists_eq]
  exact (modifyField (h .init) _ _).trans
    ((modifyField (h .main) _ _).trans (modifyField (h .ephemeral) _ _))

theorem canonicalList (value : Json) : NoDeeper (canonicalList value) value := by
  cases value with
  | arr items =>
    refine arr fun item hitem => ?_
    obtain ⟨index, hindex⟩ := List.mem_iff_getElem?.1 hitem
    rw [canonicalItems, getElem?_withImages] at hindex
    obtain ⟨old, hold, rfl⟩ := Option.map_eq_some_iff.1 hindex
    refine ⟨old, List.mem_of_getElem? hold, ?_⟩
    cases canonicalText? items index with
    | none => exact refl old
    | some text => exact modifyField (fun inner => str text inner) "image" old
  | _ => exact refl _

end Json.NoDeeper

/-- **Images in full** leave a document well formed and make it no deeper. -/
theorem noDeeper_canonicalDocument (document : Json) (kind : String) :
    Json.NoDeeper (canonicalDocument document kind) document := by
  unfold canonicalDocument
  split
  · exact .refl document
  · exact .modifyPath (.modifyLists fun _ => .canonicalList) _ document

/-! ## Through text and back -/

namespace Run

/-- The document that comes out: its numbers are read from text, once more when it is patched. -/
def inFull (document : Json) : Json :=
  if (collectDocument document).inventory.patches.isEmpty then document.mapFloats Json.reread
  else (canonicalDocument (document.mapFloats Json.reread)
    (Workload.kindOf document)).mapFloats Json.reread

/-- **A document that is not nested too deeply** comes out with its images in full. -/
theorem qualified_eq (h : document.WellFormed) (hdepth : document.depth ≤ Json.maxDepth) :
    qualified document (collectDocument document).inventory = .ok (inFull document) := by
  have hread := Json.read_compact h hdepth
  unfold qualified inFull Inventory.canonicalizeText Patch.applyToText
  cases hempty : (collectDocument document).inventory.patches.isEmpty with
  | true => simp only [if_true, hread]
  | false =>
    have happly : Patch.applyOps (collectDocument document).inventory.patches
        (document.mapFloats Json.reread) =
          .ok (canonicalDocument (document.mapFloats Json.reread) (Workload.kindOf document)) := by
      rw [← collectDocument_mapFloats Json.reread document, collectDocument, kindOf_mapFloats]
      exact applyOps_patches_eq _ _
    have hno := (noDeeper_canonicalDocument (document.mapFloats Json.reread)
      (Workload.kindOf document)).trans (.mapFloats Json.reread document)
    have hagain := Json.read_compact (hno.wellFormed h) (hno.depth_le.trans hdepth)
    simp only [Bool.false_eq_true, if_false, hread, happly, Except.map, hagain]

/-- **A document that is nested too deeply** does not come out: it is refused when it is read, for
the patch if there is one. -/
theorem exists_qualified_eq_error (h : document.WellFormed)
    (hdepth : Json.maxDepth < document.depth) :
    ∃ failure, qualified document (collectDocument document).inventory = .error failure ∧
      failure.exitCode =
        if (collectDocument document).inventory.patches.isEmpty then 1 else 3 := by
  obtain ⟨cause, hread⟩ := Json.exists_read_compact_eq_error h hdepth
  unfold qualified Inventory.canonicalizeText Patch.applyToText
  cases hempty : (collectDocument document).inventory.patches.isEmpty with
  | true =>
    simp only [if_true, hread]
    exact ⟨_, rfl, rfl⟩
  | false =>
    simp only [Bool.false_eq_true, if_false, hread]
    exact ⟨_, rfl, rfl⟩

end Run

end WorkloadImages

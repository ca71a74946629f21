import WorkloadImages.Proofs.Workload.Idempotence
import WorkloadImages.Proofs.Workload.Verdicts

/-!
# What is written when nothing is rejected

When no container of a document is rejected, every container is accepted, and what is written back
depends on the names alone. A container is written in full if no later one of its list has its name.
One whose name comes again is overridden: its image is not kept, and it is left as it was.

## Main definitions

* `WrittenInFull`: an entry holds the canonical text of the image that it held
* `Overridden`: a later entry has the name of an entry

## Main results

* `overridden_iff_lastAt?`: when an accepted entry is overridden
* `exists_rewritten_of_rejections_eq_nil`: what is written when nothing is rejected
* `podWithTwo_left_as_written`: an overridden container, which is not written in full
-/

namespace WorkloadImages

variable {document item : Json} {items : List Json} {kind name : String} {list : ContainerList}
  {index : Nat}

/-! ## Entries -/

/-- An entry holds the canonical text of the image that it held as the original entry. -/
def WrittenInFull (original entry : Json) : Prop :=
  ∃ text image, original.field? "image" = some (.str text) ∧ Image.parse text = .ok image ∧
    entry.field? "image" = some (.str image.canonical)

/-- The entry at an index has a name that a later entry has as well. -/
def Overridden (items : List Json) (index : Nat) : Prop :=
  ∃ item name later other, items[index]? = some item ∧
    item.field? "name" = some (.str name) ∧
    index < later ∧ items[later]? = some other ∧ other.field? "name" = some (.str name)

theorem Json.isObject_of_field? {key : String} {value : Json} (h : item.field? key = some value) :
    item.isObject = true := by
  cases item with
  | obj fields => rfl
  | _ => cases h

theorem writtenInFull_writeImage {image : Image} (h : container? item = some (name, image)) :
    WrittenInFull item (item.writeImage image.canonical) := by
  obtain ⟨-, text, htext, hparse⟩ := container?_eq_some_iff.1 h
  refine ⟨text, { image with pointer := "" }, htext, ?_, ?_⟩
  · rw [Image.parse, Image.parseAt_place text "" (Pointer.encode ["image"]), hparse]
    rfl
  · rw [Json.writeImage, Json.field?_modifyField_self, htext]
    rfl

/-- Every object is accepted if nothing is rejected. -/
theorem exists_container?_of_isObject (h : (collect document kind).rejections = [])
    (hitem : (containersOf document kind list)[index]? = some item)
    (hobject : item.isObject = true) : ∃ name image, container? item = some (name, image) := by
  rw [rejections_collect_eq_nil_iff] at h
  have hindex : (verdictsOf document kind list)[index]? =
      some (judge (Workload.podSpecPath kind ++ [list.field] ++ [toString index]) item) := by
    rw [verdictsOf, getElem?_verdicts, hitem, Option.map_some]
  cases hjudge : judge (Workload.podSpecPath kind ++ [list.field] ++ [toString index]) item with
  | passedOver =>
    cases hasVerdict_iff.2 hjudge with
    | passedOver hnone =>
      cases item with
      | obj fields => cases hnone
      | _ => cases hobject
  | rejected rejection =>
    rw [hjudge] at hindex
    exact absurd (List.mem_of_getElem? hindex) (h list rejection)
  | accepted name image =>
    obtain ⟨found, hfound, -⟩ := judge_eq_accepted_iff.1 hjudge
    exact ⟨name, found, hfound⟩

/-- **An accepted entry is overridden** exactly if it is not the last one with its name. -/
theorem overridden_iff_lastAt? (h : (collect document kind).rejections = [])
    (hitem : (containersOf document kind list)[index]? = some item)
    (hobject : item.isObject = true) :
    Overridden (containersOf document kind list) index ↔
      lastAt? (containersOf document kind list) index = none := by
  constructor
  · rintro ⟨item', name, later, other, hitem', hname, hlater, hother, hothername⟩
    obtain rfl := Option.some.inj (hitem.symm.trans hitem')
    obtain ⟨name', image, hcontainer⟩ :=
      exists_container?_of_isObject h hother (Json.isObject_of_field? hothername)
    obtain ⟨hname', -⟩ := container?_eq_some_iff.1 hcontainer
    obtain rfl := Json.str.inj (Option.some.inj (hname'.symm.trans hothername))
    rw [Option.eq_none_iff_forall_ne_some]
    rintro ⟨name, found⟩ hlast
    obtain ⟨hfound, hlatest⟩ := lastAt?_eq_some_iff.1 hlast
    rw [containerAt?, hitem, Option.bind_some] at hfound
    obtain ⟨hname'', -⟩ := container?_eq_some_iff.1 hfound
    obtain rfl := Json.str.inj (Option.some.inj (hname.symm.trans hname''))
    apply hlatest later hlater image
    rw [containerAt?, hother, Option.bind_some, hcontainer]
  · intro hnone
    obtain ⟨name, image, hcontainer⟩ := exists_container?_of_isObject h hitem hobject
    have hindex : containerAt? (containersOf document kind list) index = some (name, image) := by
      rw [containerAt?, hitem, Option.bind_some, hcontainer]
    obtain ⟨last, other, hle, hlast⟩ := exists_lastAt? hindex
    have hne : index ≠ last := by
      rintro rfl
      rw [hnone] at hlast
      cases hlast
    obtain ⟨hlater, -⟩ := lastAt?_eq_some_iff.1 hlast
    obtain ⟨laterItem, hlaterItem, hlaterContainer⟩ := Option.bind_eq_some_iff.1 hlater
    exact ⟨item, name, last, laterItem, hitem, (container?_eq_some_iff.1 hcontainer).1,
      Nat.lt_of_le_of_ne hle hne, hlaterItem, (container?_eq_some_iff.1 hlaterContainer).1⟩

/-! ## Documents -/

/-- **If nothing is rejected**, each object among the entries of the lists is written in full unless
a later entry has its name. An overridden entry is left as it was, and so is one that is no object;
no entry is added or lost. -/
theorem exists_rewritten_of_rejections_eq_nil (document : Json) (kind : String)
    (h : (collect document kind).rejections = []) :
    ∃ rewritten, Patch.applyOps (collect document kind).inventory.patches document =
        .ok rewritten ∧
      ∀ list, (containersOf rewritten kind list).length = (containersOf document kind list).length ∧
        ∀ (index : Nat) original, (containersOf document kind list)[index]? = some original →
          ∃ entry, (containersOf rewritten kind list)[index]? = some entry ∧
            (original.isObject = true → ¬ Overridden (containersOf document kind list) index →
              WrittenInFull original entry) ∧
            (original.isObject = false ∨ Overridden (containersOf document kind list) index →
              entry = original) := by
  refine ⟨_, applyOps_patches_eq document kind, fun list => ?_⟩
  rw [containersOf_canonicalDocument]
  refine ⟨List.length_mapIdx, fun index original hitem => ?_⟩
  cases hlast : lastAt? (containersOf document kind list) index with
  | none =>
    refine ⟨original, ?_, fun hobject hnot => ?_, fun _ => rfl⟩
    · rw [getElem?_canonicalItems_of_not_last hlast, hitem]
    · exact absurd ((overridden_iff_lastAt? h hitem hobject).2 hlast) hnot
  | some entry =>
    obtain ⟨name, image⟩ := entry
    have hcontainer := (lastAt?_eq_some_iff.1 hlast).1
    rw [containerAt?, hitem, Option.bind_some] at hcontainer
    have hobject := Json.isObject_of_field? (container?_eq_some_iff.1 hcontainer).1
    refine ⟨original.writeImage image.canonical, ?_, fun _ _ => ?_, ?_⟩
    · rw [getElem?_canonicalItems_of_last hlast, hitem, Option.map_some]
    · exact writtenInFull_writeImage hcontainer
    · rintro (hnone | hoverridden)
      · rw [hobject] at hnone
        cases hnone
      · rw [overridden_iff_lastAt? h hitem hobject, hlast] at hoverridden
        cases hoverridden

theorem exists_rewritten_podWithTwo :
    (collect (podWithTwo "nginx" "redis") "Pod").rejections = [] ∧
      ∃ rewritten, Patch.applyOps (collect (podWithTwo "nginx" "redis") "Pod").inventory.patches
          (podWithTwo "nginx" "redis") = .ok rewritten ∧
        ∃ entry, (containersOf rewritten "Pod" .main)[1]? = some entry ∧
          entry.field? "image" = some (.str "docker.io/redis:latest") := by
  have hnone : (collect (podWithTwo "nginx" "redis") "Pod").rejections = [] := by rfl
  obtain ⟨rewritten, happly, hlists⟩ :=
    exists_rewritten_of_rejections_eq_nil (podWithTwo "nginx" "redis") "Pod" hnone
  obtain ⟨entry, hentry, hwritten, -⟩ := (hlists .main).2 1 _ rfl
  -- No entry comes after the second one.
  have hlatest : ¬ Overridden (containersOf (podWithTwo "nginx" "redis") "Pod" .main) 1 := by
    rintro ⟨_, _, later, _, -, -, hlater, hother, -⟩
    rw [List.getElem?_eq_none hlater] at hother
    cases hother
  obtain ⟨text, image, htext, hparse, himage⟩ := hwritten rfl hlatest
  obtain rfl : "redis" = text := Json.str.inj (Option.some.inj htext)
  have hredis : Image.parse "redis" = .ok ⟨"docker.io", "redis", "redis", "latest", "", ""⟩ := by
    rfl
  obtain rfl := Except.ok.inj (hredis.symm.trans hparse)
  exact ⟨hnone, rewritten, happly, entry, hentry, himage⟩

/-- The first of two containers with one name is left as it was, although nothing is rejected. -/
theorem podWithTwo_left_as_written :
    (collect (podWithTwo "nginx" "redis") "Pod").rejections = [] ∧
      Patch.applyOps (collect (podWithTwo "nginx" "redis") "Pod").inventory.patches
          (podWithTwo "nginx" "redis") = .ok (podWithTwo "nginx" "docker.io/redis:latest") ∧
      ∃ original entry,
        (containersOf (podWithTwo "nginx" "redis") "Pod" .main)[0]? = some original ∧
        (containersOf (podWithTwo "nginx" "docker.io/redis:latest") "Pod" .main)[0]? =
          some entry ∧
        entry.isObject = true ∧ ¬ WrittenInFull original entry := by
  refine ⟨by rfl, by rfl, _, _, rfl, rfl, rfl, ?_⟩
  rintro ⟨text, image, htext, hparse, himage⟩
  obtain rfl : "nginx" = text := Json.str.inj (Option.some.inj htext)
  have hnginx : Image.parse "nginx" = .ok ⟨"docker.io", "nginx", "nginx", "latest", "", ""⟩ := by
    rfl
  obtain rfl := Except.ok.inj (hnginx.symm.trans hparse)
  exact absurd himage (by decide)

end WorkloadImages

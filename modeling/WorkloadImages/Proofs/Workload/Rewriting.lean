import WorkloadImages.Proofs.Patch.Replace
import WorkloadImages.Workload.Inventory

/-!
# Writing images

Operations that write images to entries of the lists of a pod spec. Each leads to another place, and
none changes where the others lead, so that they can be applied in any order: afterwards the images
they tell are in the document, and nothing else is different.

## Main definitions

* `Json.withImages`, `Json.writeImages`: entries and a list with images written by index
* `Json.modifyLists`: a pod spec with its lists of containers changed
* `afterWrites`: a document in which some operations have written their images

## Main results

* `applyTo_imageWrite`: the document after one more operation
* `applyFrom_imageWrites`: the document after a run of operations
* `apply_imageWrites`: the document after a patch that writes every image
-/

namespace WorkloadImages

variable {document podSpec value item : Json} {items : List Json} {path : List String}
  {list : ContainerList} {index : Nat} {text : String} {texts texts' : Nat → Option String}

theorem ContainerList.field_injective {first second : ContainerList}
    (h : first.field = second.field) : first = second := by
  cases first <;> cases second <;> first | rfl | exact absurd h (by decide)

/-! ## Lists of containers -/

namespace Json

/-- An entry of a list with another text as its image. -/
def writeImage (text : String) : Json → Json := modifyField "image" fun _ => .str text

/-- An entry with the text as its image, if there is a text. -/
def writeImage? : Option String → Json → Json
  | some text, item => writeImage text item
  | none, item => item

/-- Entries with the images written for which there are texts, by index. -/
def withImages (texts : Nat → Option String) (items : List Json) : List Json :=
  items.mapIdx fun index item => writeImage? (texts index) item

/-- A list with the images written for which there are texts, by index. -/
def writeImages (texts : Nat → Option String) : Json → Json
  | arr items => arr (withImages texts items)
  | value => value

theorem getElem?_withImages (texts : Nat → Option String) (items : List Json) (index : Nat) :
    (withImages texts items)[index]? = items[index]?.map (writeImage? (texts index)) :=
  List.getElem?_mapIdx

theorem writeImage_writeImage? (text : String) (text? : Option String) (item : Json) :
    writeImage text (writeImage? text? item) = writeImage text item := by
  cases text? with
  | none => rfl
  | some other => exact modifyField_modifyField "image" _ _ item

theorem exists_field?_writeImage? {old : Json} (h : item.field? "image" = some old)
    (text? : Option String) : ∃ new, (writeImage? text? item).field? "image" = some new := by
  cases text? with
  | none => exact ⟨old, h⟩
  | some text =>
    refine ⟨.str text, ?_⟩
    rw [writeImage?, writeImage, field?_modifyField_self, h]
    rfl

theorem writeImages_none (value : Json) : writeImages (fun _ => none) value = value := by
  cases value with
  | arr items =>
    refine congrArg arr (List.ext_getElem? fun index => ?_)
    rw [getElem?_withImages]
    cases items[index]? <;> rfl
  | _ => rfl

/-- One more image written to a list. -/
theorem set_withImages (hitem : items[index]? = some item) (hindex : texts' index = some text)
    (hother : ∀ other, other ≠ index → texts' other = texts other) :
    (withImages texts items).set index (writeImage text (writeImage? (texts index) item)) =
      withImages texts' items := by
  refine List.ext_getElem? fun other => ?_
  rw [List.getElem?_set, withImages, List.length_mapIdx, ← withImages]
  split
  · next h =>
    subst h
    obtain ⟨hlt, -⟩ := List.getElem?_eq_some_iff.1 hitem
    rw [if_pos hlt, getElem?_withImages, hitem, hindex, Option.map_some, writeImage?,
      writeImage_writeImage?]
  · next h => rw [getElem?_withImages, getElem?_withImages, hother other (Ne.symm h)]

/-! ## Pod specs -/

/-- A pod spec with its lists of containers changed. -/
def modifyLists (changes : ContainerList → Json → Json) (podSpec : Json) : Json :=
  ContainerList.all.foldr (fun list => modifyField list.field (changes list)) podSpec

theorem modifyLists_eq (changes : ContainerList → Json → Json) (podSpec : Json) :
    modifyLists changes podSpec =
      modifyField ContainerList.init.field (changes .init)
        (modifyField ContainerList.main.field (changes .main)
          (modifyField ContainerList.ephemeral.field (changes .ephemeral) podSpec)) := rfl

theorem field?_modifyLists (changes : ContainerList → Json → Json) (podSpec : Json)
    (list : ContainerList) :
    (modifyLists changes podSpec).field? list.field =
      (podSpec.field? list.field).map (changes list) := by
  rw [modifyLists_eq]
  cases list
  · rw [field?_modifyField_self, field?_modifyField_of_ne (by decide),
      field?_modifyField_of_ne (by decide)]
  · rw [field?_modifyField_of_ne (by decide), field?_modifyField_self,
      field?_modifyField_of_ne (by decide)]
  · rw [field?_modifyField_of_ne (by decide), field?_modifyField_of_ne (by decide),
      field?_modifyField_self]

/-- A list that has been changed may as well be changed by both changes at once. -/
theorem modifyField_modifyLists (list : ContainerList) (change : Json → Json)
    (changes : ContainerList → Json → Json) (podSpec : Json) :
    modifyField list.field change (modifyLists changes podSpec) =
      modifyLists (fun other => if other = list then fun value => change (changes other value)
        else changes other) podSpec := by
  rw [modifyLists_eq, modifyLists_eq]
  cases list
  · rw [modifyField_modifyField]
    rfl
  · rw [modifyField_comm (by decide), modifyField_modifyField]
    rfl
  · have hinit : ContainerList.ephemeral.field ≠ ContainerList.init.field := by decide
    have hmain : ContainerList.ephemeral.field ≠ ContainerList.main.field := by decide
    rw [modifyField_comm hinit, modifyField_comm hmain, modifyField_modifyField]
    rfl

/-- Only the lists that the pod spec has count for what the changes do. -/
theorem modifyLists_congr {changes changes' : ContainerList → Json → Json}
    (h : ∀ list value, podSpec.field? list.field = some value →
      changes list value = changes' list value) :
    modifyLists changes podSpec = modifyLists changes' podSpec := by
  have hephemeral : modifyField ContainerList.ephemeral.field (changes .ephemeral) podSpec =
      modifyField ContainerList.ephemeral.field (changes' .ephemeral) podSpec :=
    modifyField_congr (h .ephemeral)
  rw [modifyLists_eq, modifyLists_eq, hephemeral]
  have hmain : ∀ value, (modifyField ContainerList.ephemeral.field (changes' .ephemeral)
      podSpec).field? ContainerList.main.field = some value →
      changes .main value = changes' .main value := by
    intro value hvalue
    rw [field?_modifyField_of_ne (by decide)] at hvalue
    exact h .main value hvalue
  rw [modifyField_congr hmain]
  refine modifyField_congr fun value hvalue => ?_
  rw [field?_modifyField_of_ne (by decide), field?_modifyField_of_ne (by decide)] at hvalue
  exact h .init value hvalue

theorem modifyLists_id (podSpec : Json) : modifyLists (fun _ value => value) podSpec = podSpec := by
  rw [modifyLists_eq, modifyField_id, modifyField_id, modifyField_id]

/-- Nothing is changed exactly if no list that the pod spec has is. -/
theorem modifyLists_eq_self_iff (changes : ContainerList → Json → Json) (podSpec : Json) :
    modifyLists changes podSpec = podSpec ↔
      ∀ list value, podSpec.field? list.field = some value → changes list value = value := by
  constructor
  · intro h list value hvalue
    have hchanged := field?_modifyLists changes podSpec list
    rw [h, hvalue] at hchanged
    exact (Option.some.inj hchanged).symm
  · intro h
    rw [modifyLists_congr h, modifyLists_id]

end Json

/-! ## Operations -/

/-- The pointer to the image of the entry at an index of a list. -/
def imagePlace (path : List String) (list : ContainerList) (index : Nat) : Pointer :=
  path ++ [list.field, toString index, "image"]

/-- The operation that writes a text as the image of the entry at an index of a list. -/
def imageWrite (path : List String) (list : ContainerList) (index : Nat) (text : String) :
    Operation :=
  ⟨.replace, imagePlace path list index, text⟩

theorem imagePlace_injective {list' : ContainerList} {index' : Nat}
    (h : imagePlace path list index = imagePlace path list' index') :
    list = list' ∧ index = index' := by
  obtain ⟨hfield, htail⟩ := List.cons.inj (List.append_cancel_left h)
  obtain ⟨hindex, -⟩ := List.cons.inj htail
  have hname := congrArg Pointer.index? hindex
  rw [Pointer.index?_toString, Pointer.index?_toString] at hname
  exact ⟨ContainerList.field_injective hfield, Option.some.inj hname⟩

/-- The places of two images are apart. -/
theorem imagePlace_apart {list' : ContainerList} {index' : Nat}
    (h : imagePlace path list index ≠ imagePlace path list' index') :
    Pointer.Apart (imagePlace path list index) (imagePlace path list' index') := by
  -- Both places are as deep, so one could lead into the other only by being the same.
  have hlength : (imagePlace path list index).length = (imagePlace path list' index').length := by
    simp [imagePlace]
  refine ⟨fun hleads => h ?_, fun hleads => h ?_⟩
  · exact hleads.eq_of_length hlength
  · exact (hleads.eq_of_length hlength.symm).symm

/-- What the operation that writes an image does where there is one. -/
theorem replaceAt?_imageWrite {old : Json} (text : String)
    (hitems : document.itemsAt? (path ++ [list.field]) = some items)
    (hitem : items[index]? = some item) (hold : item.field? "image" = some old) :
    Json.replaceAt? (imagePlace path list index) (.str text) document =
      some (document.modifyPath path (Json.modifyField list.field fun _ =>
        .arr (items.set index (item.writeImage text)))) := by
  have hreplaced : Json.modifyAt? (fun _ => some (.str text)) [] old = some (.str text) := rfl
  rw [← Json.atPath?_singleton] at hold
  rw [Json.itemsAt?_eq_some_iff] at hitems
  -- From the inside out: the image in its entry, the entry in its list, the list in the pod spec.
  have hentry := Json.modifyAt?_append hold hreplaced
  have hlist := Json.modifyAt?_append hitems (Json.modifyAt?_item hitem hentry)
  rw [List.append_assoc, Json.modifyPath_append] at hlist
  exact hlist

/-! ## Runs of operations -/

section Run

variable {texts : ContainerList → Nat → Option String} {done rest : Patch}

/-- The text for an entry, if one of the operations already done has written it. -/
def writtenBy (texts : ContainerList → Nat → Option String) (path : List String) (done : Patch)
    (list : ContainerList) (index : Nat) : Option String :=
  (texts list index).filter fun text => decide (imageWrite path list index text ∈ done)

/-- A document with the texts that the operations already done have written. -/
def afterWrites (texts : ContainerList → Nat → Option String) (path : List String) (done : Patch) :
    Json → Json :=
  Json.modifyPath path (Json.modifyLists fun list =>
    Json.writeImages (writtenBy texts path done list))

/-- Wherever there is a text, the document has an entry with an image. -/
def HaveImages (texts : ContainerList → Nat → Option String) (path : List String)
    (document : Json) : Prop :=
  ∀ list index text, texts list index = some text → ∃ items item old,
    document.itemsAt? (path ++ [list.field]) = some items ∧ items[index]? = some item ∧
      item.field? "image" = some old

theorem writtenBy_nil (list : ContainerList) : writtenBy texts path [] list = fun _ => none := by
  funext index
  unfold writtenBy
  cases texts list index <;> rfl

theorem writtenBy_of_mem
    (h : ∀ index text, texts list index = some text → imageWrite path list index text ∈ done) :
    writtenBy texts path done list = texts list := by
  funext index
  unfold writtenBy
  cases htext : texts list index with
  | none => rfl
  | some text => rw [Option.filter_some, if_pos (decide_eq_true (h index text htext))]

theorem writtenBy_cons_self (htext : texts list index = some text) :
    writtenBy texts path (imageWrite path list index text :: done) list index = some text := by
  unfold writtenBy
  rw [htext, Option.filter_some, if_pos (decide_eq_true List.mem_cons_self)]

/-- An operation writes to no other entry than its own. -/
theorem writtenBy_cons_of_ne {list' : ContainerList} {index' : Nat}
    (hne : list' = list → index' ≠ index) :
    writtenBy texts path (imageWrite path list index text :: done) list' index' =
      writtenBy texts path done list' index' := by
  unfold writtenBy
  cases texts list' index' with
  | none => rfl
  | some text' =>
    have hother : imageWrite path list' index' text' ≠ imageWrite path list index text := by
      intro h
      obtain ⟨hlist, hindex⟩ := imagePlace_injective (congrArg Operation.pointer h)
      exact hne hlist hindex
    simp only [Option.filter_some, List.mem_cons, hother, false_or]

theorem afterWrites_nil (document : Json) : afterWrites texts path [] document = document := by
  refine (Json.modifyPath_eq_self_iff ..).2 fun podSpec _ => ?_
  refine (Json.modifyLists_eq_self_iff ..).2 fun list value _ => ?_
  rw [writtenBy_nil, Json.writeImages_none]

theorem itemsAt?_afterWrites (hitems : document.itemsAt? (path ++ [list.field]) = some items) :
    (afterWrites texts path done document).itemsAt? (path ++ [list.field]) =
      some (Json.withImages (writtenBy texts path done list) items) := by
  obtain ⟨podSpec, hpath, hlist⟩ := Json.itemsAt?_append_eq_some_iff.1 hitems
  refine Json.itemsAt?_append_eq_some_iff.2
    ⟨podSpec.modifyLists fun list => Json.writeImages (writtenBy texts path done list), ?_, ?_⟩
  · rw [afterWrites, Json.atPath?_modifyPath, hpath, Option.map_some]
  · rw [Json.field?_modifyLists, hlist]
    rfl

/-- One more text in the document, put where its operation leads. -/
theorem modifyPath_afterWrites (hitems : document.itemsAt? (path ++ [list.field]) = some items)
    (hitem : items[index]? = some item) (htext : texts list index = some text) :
    (afterWrites texts path done document).modifyPath path (Json.modifyField list.field fun _ =>
        .arr ((Json.withImages (writtenBy texts path done list) items).set index
          (Json.writeImage text (Json.writeImage? (writtenBy texts path done list index) item)))) =
      afterWrites texts path (imageWrite path list index text :: done) document := by
  unfold afterWrites
  rw [Json.modifyPath_modifyPath]
  refine Json.modifyPath_congr fun inner hinner => ?_
  obtain ⟨podSpec, hpath, hlist⟩ := Json.itemsAt?_append_eq_some_iff.1 hitems
  obtain rfl := Option.some.inj (hpath.symm.trans hinner)
  rw [Json.modifyField_modifyLists]
  -- The list of the operation has one more text, the other lists have the texts they had.
  refine Json.modifyLists_congr fun other value hvalue => ?_
  by_cases hother : other = list
  · subst hother
    obtain rfl := Option.some.inj (hlist.symm.trans hvalue)
    rw [if_pos rfl]
    exact congrArg Json.arr (Json.set_withImages hitem (writtenBy_cons_self htext)
      fun _ hne => writtenBy_cons_of_ne fun _ => hne)
  · have hsame : writtenBy texts path (imageWrite path list index text :: done) other =
        writtenBy texts path done other :=
      funext fun _ => writtenBy_cons_of_ne (absurd · hother)
    rw [if_neg hother, hsame]

/-- One more operation writes its text, to an entry that has an image. -/
theorem applyTo_imageWrite {old : Json}
    (hitems : document.itemsAt? (path ++ [list.field]) = some items)
    (hitem : items[index]? = some item) (hold : item.field? "image" = some old)
    (htext : texts list index = some text) :
    (imageWrite path list index text).applyTo (afterWrites texts path done document) =
      .ok (afterWrites texts path (imageWrite path list index text :: done) document) := by
  have hentry : (Json.withImages (writtenBy texts path done list) items)[index]? =
      some (Json.writeImage? (writtenBy texts path done list index) item) := by
    rw [Json.getElem?_withImages, hitem, Option.map_some]
  obtain ⟨new, hnew⟩ := Json.exists_field?_writeImage? hold (writtenBy texts path done list index)
  have hreplace := replaceAt?_imageWrite text (itemsAt?_afterWrites hitems) hentry hnew
  rw [modifyPath_afterWrites hitems hitem htext] at hreplace
  exact (Operation.applyTo_replace_iff rfl).2 hreplace

/-- **A run of operations** that write texts to entries with an image. -/
theorem applyFrom_imageWrites (start : Nat) (hentries : HaveImages texts path document)
    (hrest : ∀ operation ∈ rest, ∃ list index text,
      texts list index = some text ∧ operation = imageWrite path list index text) :
    Patch.applyFrom start rest (afterWrites texts path done document) =
      .ok (afterWrites texts path (rest.reverse ++ done) document) := by
  -- What has been written is the invariant: each operation moves from the rest to those done.
  induction rest generalizing start done with
  | nil => rfl
  | cons operation rest ih =>
    obtain ⟨list, index, text, htext, rfl⟩ := hrest operation List.mem_cons_self
    obtain ⟨items, item, old, hitems, hitem, hold⟩ := hentries list index text htext
    rw [Patch.applyFrom, applyTo_imageWrite hitems hitem hold htext, List.reverse_cons,
      List.append_assoc]
    exact ih (start + 1) fun operation hmem => hrest operation (List.mem_cons_of_mem _ hmem)

/-- **A patch that writes all the texts there are**, each to an entry that has an image, gives the
document with these texts as images and nothing else changed. -/
theorem apply_imageWrites {patch : Patch} (hentries : HaveImages texts path document)
    (hpatch : ∀ operation, operation ∈ patch ↔ ∃ list index text,
      texts list index = some text ∧ operation = imageWrite path list index text) :
    patch.apply document = .ok (document.modifyPath path
      (Json.modifyLists fun list => Json.writeImages (texts list))) := by
  have hall : ∀ list, writtenBy texts path (patch.reverse ++ []) list = texts list :=
    fun list => writtenBy_of_mem fun index text htext => by
      rw [List.append_nil, List.mem_reverse]
      exact (hpatch _).2 ⟨list, index, text, htext, rfl⟩
  have hrun : Patch.applyFrom 0 patch (afterWrites texts path [] document) =
      .ok (afterWrites texts path (patch.reverse ++ []) document) :=
    applyFrom_imageWrites 0 hentries fun operation => (hpatch operation).1
  rw [afterWrites_nil] at hrun
  rw [Patch.apply, hrun, afterWrites]
  simp only [hall]

end Run

end WorkloadImages

import WorkloadImages.Proofs.Workload.Canonical

/-!
# What becomes of the entries

Every entry of a list of containers is passed over, rejected or accepted, by what it holds and where
it stands. Collecting the images of a document reports each rejection once, in order, and keeps the
last accepted image under each name.

## Main definitions

* `Verdict`, `HasVerdict`: what becomes of an entry, and when
* `verdictsOf`: the verdicts on the entries of a list of a document

## Main results

* `hasVerdict_iff`: there is one verdict on an entry
* `rejections_collect`: the rejections that are reported
* `get?_collect_iff`: the images that are kept
* `exists_verdicts_collect`: a collection is told by the verdicts on the entries
-/

namespace WorkloadImages

/-- What becomes of an entry of a list of containers. -/
inductive Verdict where
  /-- It is no container. -/
  | passedOver
  /-- It is a container that is reported. -/
  | rejected (rejection : Rejection)
  /-- It is a container with a name and an image. -/
  | accepted (name : String) (image : Image)
  deriving DecidableEq

/-- The rejection that a verdict reports. -/
def Verdict.rejection? : Verdict → Option Rejection
  | rejected rejection => some rejection
  | _ => none

/-- The text of an image among the fields of a container: an image that is left out is empty. -/
inductive HasImageText (fields : Fields Json) : String → Prop
  | given {text} : Fields.get? "image" fields = some (.str text) → HasImageText fields text
  | absent : Fields.get? "image" fields = none → HasImageText fields ""

/-- What becomes of the entry at a place. The name counts before the image, and that the image is a
text before what it says. -/
inductive HasVerdict (place : Pointer) : Json → Verdict → Prop
  | passedOver {item} : item.asObject? = none → HasVerdict place item .passedOver
  | nameMissing {fields} : Fields.get? "name" fields = none →
      HasVerdict place (.obj fields) (.rejected (.container place.encode (.missing "name")))
  | nameNoText {fields value} : Fields.get? "name" fields = some value → value.asString? = none →
      HasVerdict place (.obj fields) (.rejected (.container place.encode (.notText "name")))
  | imageNoText {fields name value} : Fields.get? "name" fields = some (.str name) →
      Fields.get? "image" fields = some value → value.asString? = none →
      HasVerdict place (.obj fields) (.rejected (.container place.encode (.notText "image")))
  | imageRefused {fields name text cause} : Fields.get? "name" fields = some (.str name) →
      HasImageText fields text →
      Image.parseAt text (place ++ ["image"]).encode = .error cause →
      HasVerdict place (.obj fields) (.rejected (.image (place ++ ["image"]).encode
        (Reference.ensureDomain text) cause))
  | accepted {fields name text image} : Fields.get? "name" fields = some (.str name) →
      HasImageText fields text →
      Image.parseAt text (place ++ ["image"]).encode = .ok image →
      HasVerdict place (.obj fields) (.accepted name image)

variable {items : List Json} {item document : Json} {place : Pointer} {path : List String}
  {verdict : Verdict} {fields : Fields Json} {name text kind : String} {image : Image}
  {index : Nat} {list : ContainerList}

/-! ## Entries -/

/-- The verdict on the entry at a place, as the entry is read. -/
def judge (place : Pointer) (item : Json) : Verdict :=
  match item.asObject? with
  | none => .passedOver
  | some fields =>
    match readContainer place fields with
    | .ok (name, image) => .accepted name image
    | .error rejection => .rejected rejection

theorem containerTexts_eq_ok_iff_hasImageText :
    containerTexts fields = .ok (name, text) ↔
      Fields.get? "name" fields = some (.str name) ∧ HasImageText fields text := by
  rw [containerTexts_eq_ok_iff]
  refine and_congr_right fun _ => ⟨?_, ?_⟩
  · rintro (hgiven | ⟨habsent, rfl⟩)
    · exact .given hgiven
    · exact .absent habsent
  · rintro (hgiven | habsent)
    · exact Or.inl hgiven
    · exact Or.inr ⟨habsent, rfl⟩

/-- The name of a container is missing or no text, or else the image is no text. -/
theorem containerTexts_eq_error_iff {cause : EntryError} :
    containerTexts fields = .error cause ↔
      (Fields.get? "name" fields = none ∧ cause = .missing "name") ∨
      (∃ value, Fields.get? "name" fields = some value ∧ value.asString? = none ∧
        cause = .notText "name") ∨
      ∃ name value, Fields.get? "name" fields = some (.str name) ∧
        Fields.get? "image" fields = some value ∧ value.asString? = none ∧
        cause = .notText "image" := by
  unfold containerTexts requiredText optionalText
  cases Fields.get? "name" fields with
  | none => simp [bind, Except.bind, eq_comm]
  | some named =>
    cases named with
    | str named =>
      cases Fields.get? "image" fields with
      | none => simp [bind, Except.bind, pure, Except.pure, Json.asString?]
      | some written =>
        cases written <;> simp [bind, Except.bind, pure, Except.pure, Json.asString?, eq_comm]
    | _ => simp [bind, Except.bind, Json.asString?, eq_comm]

theorem judge_of_error {cause : EntryError} (h : containerTexts fields = .error cause) :
    judge place (.obj fields) = .rejected (.container place.encode cause) := by
  unfold judge readContainer
  dsimp only [Json.asObject?]
  rw [h]

theorem judge_of_ok (h : containerTexts fields = .ok (name, text)) :
    judge place (.obj fields) =
      match Image.parseAt text (place ++ ["image"]).encode with
      | .ok image => .accepted name image
      | .error cause => .rejected (.image (place ++ ["image"]).encode
          (Reference.ensureDomain text) cause) := by
  unfold judge readContainer
  dsimp only [Json.asObject?]
  rw [h]
  dsimp only
  cases Image.parseAt text (place ++ ["image"]).encode <;> rfl

theorem hasVerdict_judge (place : Pointer) (item : Json) :
    HasVerdict place item (judge place item) := by
  cases item with
  | obj fields =>
    cases htexts : containerTexts fields with
    | error cause =>
      rw [judge_of_error htexts]
      rcases containerTexts_eq_error_iff.1 htexts with
        ⟨hname, rfl⟩ | ⟨value, hname, hvalue, rfl⟩ | ⟨name, value, hname, himage, hvalue, rfl⟩
      · exact .nameMissing hname
      · exact .nameNoText hname hvalue
      · exact .imageNoText hname himage hvalue
    | ok texts =>
      obtain ⟨name, text⟩ := texts
      obtain ⟨hname, htext⟩ := containerTexts_eq_ok_iff_hasImageText.1 htexts
      rw [judge_of_ok htexts]
      cases hparse : Image.parseAt text (place ++ ["image"]).encode with
      | error cause => exact .imageRefused hname htext hparse
      | ok image => exact .accepted hname htext hparse
  | _ => exact .passedOver rfl

/-- **There is one verdict on an entry**, the one with which it is read. -/
theorem hasVerdict_iff : HasVerdict place item verdict ↔ judge place item = verdict := by
  refine ⟨fun h => ?_, fun h => h ▸ hasVerdict_judge place item⟩
  cases h with
  | passedOver hitem => rw [judge, hitem]
  | nameMissing hname => exact judge_of_error (containerTexts_eq_error_iff.2 (Or.inl ⟨hname, rfl⟩))
  | nameNoText hname hvalue =>
    exact judge_of_error (containerTexts_eq_error_iff.2 (Or.inr (Or.inl ⟨_, hname, hvalue, rfl⟩)))
  | imageNoText hname himage hvalue =>
    exact judge_of_error
      (containerTexts_eq_error_iff.2 (Or.inr (Or.inr ⟨_, _, hname, himage, hvalue, rfl⟩)))
  | imageRefused hname htext hparse =>
    rw [judge_of_ok (containerTexts_eq_ok_iff_hasImageText.2 ⟨hname, htext⟩), hparse]
  | accepted hname htext hparse =>
    rw [judge_of_ok (containerTexts_eq_ok_iff_hasImageText.2 ⟨hname, htext⟩), hparse]

/-- An entry is accepted at a place exactly if it is accepted anywhere. -/
theorem judge_eq_accepted_iff :
    judge place item = .accepted name image ↔
      ∃ found, container? item = some (name, found) ∧
        image = { found with pointer := (place ++ ["image"]).encode } := by
  unfold judge container?
  cases item.asObject? with
  | none => simp
  | some fields =>
    have hplace := toOption_readContainer place fields
    dsimp only
    constructor
    · intro h
      cases hread : readContainer place fields with
      | error rejection => rw [hread] at h; cases h
      | ok entry =>
        rw [hread] at h hplace
        obtain ⟨rfl, rfl⟩ := Verdict.accepted.inj h
        obtain ⟨⟨_, found⟩, hfound, hplaced⟩ := Option.map_eq_some_iff.1 hplace.symm
        obtain ⟨rfl, himage⟩ := Prod.mk.inj hplaced
        exact ⟨found, hfound, himage.symm⟩
    · rintro ⟨found, hfound, rfl⟩
      rw [hfound] at hplace
      cases hread : readContainer place fields with
      | error rejection => rw [hread] at hplace; cases hplace
      | ok entry =>
        rw [hread] at hplace
        obtain rfl := Option.some.inj hplace
        rfl

/-! ## Lists -/

/-- The verdicts on the entries of the list at a path. -/
def verdicts (path : List String) (items : List Json) : List Verdict :=
  items.mapIdx fun index item => judge (path ++ [toString index]) item

theorem getElem?_verdicts (path : List String) (items : List Json) (index : Nat) :
    (verdicts path items)[index]? = items[index]?.map (judge (path ++ [toString index])) :=
  List.getElem?_mapIdx

theorem rejected_readList (document : Json) (path : List String) :
    rejected (readList document path) =
      (verdicts path ((document.itemsAt? path).getD [])).filterMap Verdict.rejection? := by
  unfold rejected readList verdicts
  rw [List.filterMap_filterMap, List.mapIdx_eq_zipIdx_map, List.filterMap_map]
  refine congrArg (List.filterMap · _) (funext fun entry => ?_)
  obtain ⟨item, index⟩ := entry
  dsimp only [Function.comp_apply]
  unfold judge
  cases item.asObject? with
  | none => rfl
  | some fields =>
    dsimp only [Option.map_some, Option.bind_some]
    cases readContainer (path ++ [toString index]) fields <;> rfl

theorem getElem?_verdicts_eq_accepted_iff :
    (verdicts path items)[index]? = some (.accepted name image) ↔
      ∃ found, containerAt? items index = some (name, found) ∧
        image = { found with pointer := imagePointer path index } := by
  have hplace : imagePointer path index =
      Pointer.encode (path ++ [toString index] ++ ["image"]) := by
    rw [imagePointer, List.append_assoc]
    rfl
  rw [getElem?_verdicts, containerAt?, hplace]
  cases items[index]? with
  | none => simp
  | some item =>
    rw [Option.map_some, Option.some.injEq, Option.bind_some]
    exact judge_eq_accepted_iff

/-! ## Documents -/

/-- The verdicts on the entries of a list of containers of a document of a kind. -/
def verdictsOf (document : Json) (kind : String) (list : ContainerList) : List Verdict :=
  verdicts (Workload.podSpecPath kind ++ [list.field]) (containersOf document kind list)

/-- **The rejections that are reported** are those of the verdicts, in order. -/
theorem rejections_collect (document : Json) (kind : String) :
    (collect document kind).rejections =
      ContainerList.all.flatMap fun list =>
        (verdictsOf document kind list).filterMap Verdict.rejection? := by
  unfold collect verdictsOf containersOf
  cases Workload.podSpecPath kind with
  | nil => rfl
  | cons key keys =>
    have hlist : ∀ list : ContainerList,
        rejected (readList document (key :: keys ++ [list.field])) =
          (verdicts (key :: keys ++ [list.field])
            (containerItems document (key :: keys) list)).filterMap Verdict.rejection? :=
      fun list => rejected_readList document (key :: keys ++ [list.field])
    simp only [collectAt, hlist]

/-- **The images that are kept** are those of the last accepted entry with each name. -/
theorem get?_collect_iff :
    ((collect document kind).inventory.list list).get? name = some image ↔
      ∃ index found, lastAt? (containersOf document kind list) index = some (name, found) ∧
        image = { found with
          pointer := imagePointer (Workload.podSpecPath kind ++ [list.field]) index } := by
  unfold collect containersOf
  cases Workload.podSpecPath kind with
  | nil =>
    have hempty : ((∅ : Collection).inventory.list list).get? name = none := by
      cases list <;> rfl
    simp [hempty, lastAt?]
  | cons key keys =>
    dsimp only
    rw [list_collectAt, Dict.get?_ofList, get?_collected_iff]
    simp only [Nat.zero_add]

theorem rejections_collect_eq_nil_iff :
    (collect document kind).rejections = [] ↔
      ∀ list rejection, Verdict.rejected rejection ∉ verdictsOf document kind list := by
  rw [rejections_collect, List.flatMap_eq_nil_iff]
  constructor
  · intro h list rejection hmem
    have hlist : list ∈ ContainerList.all := by cases list <;> decide
    have hnone := List.filterMap_eq_nil_iff.1 (h list hlist) _ hmem
    cases hnone
  · intro h list _
    refine List.filterMap_eq_nil_iff.2 fun verdict hverdict => ?_
    cases verdict with
    | rejected rejection => exact absurd hverdict (h list rejection)
    | _ => rfl

theorem getElem?_verdictsOf_eq_accepted_iff :
    (verdictsOf document kind list)[index]? = some (.accepted name image) ↔
      ∃ found, containerAt? (containersOf document kind list) index = some (name, found) ∧
        image = { found with
          pointer := imagePointer (Workload.podSpecPath kind ++ [list.field]) index } :=
  getElem?_verdicts_eq_accepted_iff

/-- The name of an accepted entry is kept. -/
theorem exists_get?_collect (h : Verdict.accepted name image ∈ verdictsOf document kind list) :
    ∃ kept, ((collect document kind).inventory.list list).get? name = some kept := by
  obtain ⟨index, hindex⟩ := List.mem_iff_getElem?.1 h
  obtain ⟨found, hcontainer, -⟩ := getElem?_verdictsOf_eq_accepted_iff.1 hindex
  obtain ⟨last, other, -, hlast⟩ := exists_lastAt? hcontainer
  exact ⟨_, get?_collect_iff.2 ⟨last, other, hlast, rfl⟩⟩

/-- An image that is kept is that of the last accepted entry with its name. -/
theorem get?_collect_iff_verdictsOf :
    ((collect document kind).inventory.list list).get? name = some image ↔
      ∃ index : Nat, (verdictsOf document kind list)[index]? = some (.accepted name image) ∧
        ∀ later, index < later → ∀ other,
          (verdictsOf document kind list)[later]? ≠ some (.accepted name other) := by
  rw [get?_collect_iff]
  constructor
  · rintro ⟨index, found, hlast, rfl⟩
    obtain ⟨hcontainer, hlater⟩ := lastAt?_eq_some_iff.1 hlast
    refine ⟨index, getElem?_verdictsOf_eq_accepted_iff.2 ⟨found, hcontainer, rfl⟩, ?_⟩
    intro later hlt other hother
    obtain ⟨found', hcontainer', -⟩ := getElem?_verdictsOf_eq_accepted_iff.1 hother
    exact hlater later hlt found' hcontainer'
  · rintro ⟨index, hindex, hlater⟩
    obtain ⟨found, hcontainer, rfl⟩ := getElem?_verdictsOf_eq_accepted_iff.1 hindex
    refine ⟨index, found, lastAt?_eq_some_iff.2 ⟨hcontainer, ?_⟩, rfl⟩
    intro later hlt other hother
    exact hlater later hlt _ (getElem?_verdictsOf_eq_accepted_iff.2 ⟨other, hother, rfl⟩)

/-- **A collection is told by the verdicts on the entries.** There is one verdict on each entry of
each list. The rejections are reported once each, list by list and in the order of the entries; the
name of an accepted entry is kept, with the image of the last accepted entry of that name, and no
other name is. -/
theorem exists_verdicts_collect (document : Json) (kind : String) :
    ∃ judged : ContainerList → List Verdict,
      (∀ list, (judged list).length = (containersOf document kind list).length) ∧
      (∀ list (index : Nat) verdict, (judged list)[index]? = some verdict ↔
        ∃ item, (containersOf document kind list)[index]? = some item ∧
          HasVerdict (Workload.podSpecPath kind ++ [list.field, toString index]) item verdict) ∧
      (collect document kind).rejections =
        (judged .init).filterMap Verdict.rejection? ++
          (judged .main).filterMap Verdict.rejection? ++
            (judged .ephemeral).filterMap Verdict.rejection? ∧
      ((collect document kind).rejections = [] ↔
        ∀ list rejection, Verdict.rejected rejection ∉ judged list) ∧
      (∀ list name image, Verdict.accepted name image ∈ judged list →
        ∃ kept, ((collect document kind).inventory.list list).get? name = some kept) ∧
      ∀ list name image, ((collect document kind).inventory.list list).get? name = some image ↔
        ∃ index : Nat, (judged list)[index]? = some (Verdict.accepted name image) ∧
          ∀ later, index < later → ∀ other,
            (judged list)[later]? ≠ some (Verdict.accepted name other) := by
  refine ⟨verdictsOf document kind, ?_, ?_, ?_, rejections_collect_eq_nil_iff,
    fun _ _ _ => exists_get?_collect, fun _ _ _ => get?_collect_iff_verdictsOf⟩
  · intro list
    rw [verdictsOf, verdicts, List.length_mapIdx]
  · intro list index verdict
    have hplace : Workload.podSpecPath kind ++ [list.field, toString index] =
        Workload.podSpecPath kind ++ [list.field] ++ [toString index] := by simp
    rw [verdictsOf, getElem?_verdicts, Option.map_eq_some_iff, hplace]
    simp only [hasVerdict_iff]
  · rw [rejections_collect]
    simp [ContainerList.all]

end WorkloadImages

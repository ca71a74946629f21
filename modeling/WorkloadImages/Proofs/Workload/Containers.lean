import WorkloadImages.Proofs.Dict
import WorkloadImages.Proofs.Reference.RoundTrip
import WorkloadImages.Workload.Collection

/-!
# The containers of a list

An entry of a list of containers is accepted or not by itself, wherever it stands: the place only
shows in the pointer of its image. Of the accepted entries with one name the last is collected.

## Main definitions

* `container?`: the name and the image of an accepted entry
* `lastAt?`: the accepted entry at an index, if it is the last with its name

## Main results

* `lastAt?_eq_some_iff`: when an entry is the last with its name
* `mem_values_collected_iff`: the images that are collected from a list
-/

namespace WorkloadImages

variable {items : List Json} {item : Json} {path : List String} {name : String} {image : Image}
  {index : Nat}

/-! ## Entries -/

/-- The name and the image of an entry, if it is accepted. -/
def container? (item : Json) : Option (String × Image) :=
  match item.asObject? with
  | some fields => (readContainer [] fields).toOption
  | none => none

/-- A container with another place that its image was read from. -/
def placed (place : String) (entry : String × Image) : String × Image :=
  (entry.1, { entry.2 with pointer := place })

theorem Image.parseAt_place (text place pointer : String) :
    parseAt text place = (parseAt text pointer).map ({ · with pointer := place }) := by
  unfold parseAt
  cases Reference.parse (Reference.ensureDomain text) <;> rfl

/-- A container has its name and its image as texts; an image that is left out is empty. -/
theorem containerTexts_eq_ok_iff {fields : Fields Json} {text : String} :
    containerTexts fields = .ok (name, text) ↔
      Fields.get? "name" fields = some (.str name) ∧
        (Fields.get? "image" fields = some (.str text) ∨
          Fields.get? "image" fields = none ∧ text = "") := by
  unfold containerTexts requiredText optionalText
  cases Fields.get? "name" fields with
  | none => simp [bind, Except.bind]
  | some named =>
    cases named with
    | str named =>
      cases Fields.get? "image" fields with
      | none => simp [bind, Except.bind, pure, Except.pure, Json.asString?, eq_comm]
      | some written =>
        cases written with
        | str written => simp [bind, Except.bind, pure, Except.pure, Json.asString?]
        | _ => simp [bind, Except.bind, Json.asString?]
    | _ => simp [bind, Except.bind, Json.asString?]

/-- Nothing is read from an empty text: the default domain alone is no reference. -/
theorem Image.parseAt_empty (place : String) : parseAt "" place ≠ .ok image := by
  have hempty : parse "" = .error (.invalidFormat "docker.io/") := by rfl
  rw [parseAt_place "" place "", ← parse, hempty]
  exact nofun

/-- An entry is accepted exactly if it has a name and an image as texts, and the text of the image
can be read. -/
theorem container?_eq_some_iff :
    container? item = some (name, image) ↔
      item.field? "name" = some (.str name) ∧ ∃ text, item.field? "image" = some (.str text) ∧
        Image.parseAt text (Pointer.encode ["image"]) = .ok image := by
  cases item with
  | obj fields =>
    unfold container? readContainer
    dsimp only [Json.asObject?, Json.field?]
    cases htexts : containerTexts fields with
    | error cause =>
      refine ⟨(nomatch ·), ?_⟩
      rintro ⟨hname, text, himage, -⟩
      rw [containerTexts_eq_ok_iff.2 ⟨hname, Or.inl himage⟩] at htexts
      cases htexts
    | ok texts =>
      obtain ⟨name', text⟩ := texts
      obtain ⟨hname, himage⟩ := containerTexts_eq_ok_iff.1 htexts
      dsimp only [List.nil_append]
      -- An image that is left out is read as the empty text, which is refused.
      constructor
      · intro h
        cases hparse : Image.parseAt text (Pointer.encode ["image"]) with
        | error cause => rw [hparse] at h; cases h
        | ok found =>
          rw [hparse] at h
          obtain ⟨rfl, rfl⟩ := Prod.mk.inj (Option.some.inj h)
          rcases himage with himage | ⟨-, rfl⟩
          · exact ⟨hname, text, himage, hparse⟩
          · exact absurd hparse (Image.parseAt_empty _)
      · rintro ⟨hname', text', himage', hparse⟩
        have htexts' := containerTexts_eq_ok_iff.2 ⟨hname', Or.inl himage'⟩
        obtain ⟨rfl, rfl⟩ := Prod.mk.inj (Except.ok.inj (htexts.symm.trans htexts'))
        rw [hparse]
        rfl
  | _ => simp [container?, Json.asObject?, Json.field?]

/-- Where a container stands does not count for whether it is accepted. -/
theorem toOption_readContainer (pointer : Pointer) (fields : Fields Json) :
    (readContainer pointer fields).toOption =
      (readContainer [] fields).toOption.map (placed (pointer ++ ["image"]).encode) := by
  unfold readContainer
  cases containerTexts fields with
  | error cause => rfl
  | ok texts =>
    obtain ⟨name, text⟩ := texts
    have hplace := Image.parseAt_place text (pointer ++ ["image"]).encode
      (Pointer.encode ([] ++ ["image"]))
    simp only [hplace]
    cases Image.parseAt text (Pointer.encode ([] ++ ["image"])) <;> rfl

/-- The entry at an index, if it is accepted. -/
def containerAt? (items : List Json) (index : Nat) : Option (String × Image) :=
  items[index]?.bind container?

theorem containerAt?_zero (item : Json) (items : List Json) :
    containerAt? (item :: items) 0 = container? item := rfl

theorem containerAt?_succ (item : Json) (items : List Json) (index : Nat) :
    containerAt? (item :: items) (index + 1) = containerAt? items index := rfl

/-- The names of the accepted entries. -/
def acceptedNames (items : List Json) : List String :=
  items.filterMap fun item => (container? item).map (·.1)

theorem mem_acceptedNames_iff :
    name ∈ acceptedNames items ↔ ∃ index image, containerAt? items index = some (name, image) := by
  unfold acceptedNames containerAt?
  rw [List.mem_filterMap]
  constructor
  · rintro ⟨item, hitem, hname⟩
    obtain ⟨⟨found, image⟩, hcontainer, rfl⟩ := Option.map_eq_some_iff.1 hname
    obtain ⟨index, hindex⟩ := List.mem_iff_getElem?.1 hitem
    exact ⟨index, image, by rw [hindex]; exact hcontainer⟩
  · rintro ⟨index, image, h⟩
    obtain ⟨item, hindex, hcontainer⟩ := Option.bind_eq_some_iff.1 h
    exact ⟨item, List.mem_iff_getElem?.2 ⟨index, hindex⟩, by rw [hcontainer]; rfl⟩

/-! ## The last entry with a name -/

/-- The entry at an index, if it is accepted and no later one with its name is. -/
def lastAt? : List Json → Nat → Option (String × Image)
  | [], _ => none
  | item :: items, 0 =>
    (container? item).filter fun entry => decide (entry.1 ∉ acceptedNames items)
  | _ :: items, index + 1 => lastAt? items index

theorem lastAt?_zero_eq_some_iff :
    lastAt? (item :: items) 0 = some (name, image) ↔
      container? item = some (name, image) ∧ name ∉ acceptedNames items := by
  rw [lastAt?, Option.filter_eq_some_iff, decide_eq_true_iff]

theorem lastAt?_eq_some_iff :
    lastAt? items index = some (name, image) ↔
      containerAt? items index = some (name, image) ∧
        ∀ later, index < later → ∀ other, containerAt? items later ≠ some (name, other) := by
  induction items generalizing index with
  | nil => simp [lastAt?, containerAt?]
  | cons item items ih =>
    cases index with
    | zero =>
      -- Later in the list is anywhere in the rest of it.
      rw [lastAt?_zero_eq_some_iff, containerAt?_zero, mem_acceptedNames_iff]
      refine and_congr_right fun _ => ⟨fun h later hlater other hother => ?_, fun h hmem => ?_⟩
      · obtain ⟨index, rfl⟩ := Nat.exists_eq_add_one.2 hlater
        exact h ⟨index, other, hother⟩
      · obtain ⟨index, other, hother⟩ := hmem
        exact h (index + 1) (Nat.succ_pos index) other hother
    | succ index =>
      rw [lastAt?, ih, containerAt?_succ]
      refine and_congr_right fun _ => ⟨fun h later hlater => ?_, fun h later hlater => ?_⟩
      · obtain ⟨later, rfl⟩ := Nat.exists_eq_add_one.2 (Nat.zero_lt_of_lt hlater)
        exact h later (Nat.lt_of_succ_lt_succ hlater)
      · exact h (later + 1) (Nat.succ_lt_succ hlater)

/-- At or after an accepted entry stands the last one with its name. -/
theorem exists_lastAt? (h : containerAt? items index = some (name, image)) :
    ∃ last other, index ≤ last ∧ lastAt? items last = some (name, other) := by
  induction items generalizing index image with
  | nil => cases h
  | cons item items ih =>
    cases index with
    | zero =>
      by_cases hname : name ∈ acceptedNames items
      · obtain ⟨index, other, hother⟩ := mem_acceptedNames_iff.1 hname
        obtain ⟨last, found, -, hlast⟩ := ih hother
        exact ⟨last + 1, found, Nat.zero_le _, hlast⟩
      · exact ⟨0, image, Nat.le_refl 0, lastAt?_zero_eq_some_iff.2 ⟨h, hname⟩⟩
    | succ index =>
      obtain ⟨last, other, hle, hlast⟩ := ih h
      exact ⟨last + 1, other, Nat.succ_le_succ hle, hlast⟩

theorem mem_acceptedNames_iff_lastAt? :
    name ∈ acceptedNames items ↔ ∃ last image, lastAt? items last = some (name, image) := by
  rw [mem_acceptedNames_iff]
  constructor
  · rintro ⟨index, image, h⟩
    obtain ⟨last, other, -, hlast⟩ := exists_lastAt? h
    exact ⟨last, other, hlast⟩
  · rintro ⟨last, image, h⟩
    exact ⟨last, image, (lastAt?_eq_some_iff.1 h).1⟩

/-- The last entry with a name is the first of the list, or it is the last in the rest. -/
theorem exists_lastAt?_cons {P : Nat → Image → Prop} :
    (∃ index found, lastAt? (item :: items) index = some (name, found) ∧ P index found) ↔
      (∃ found, container? item = some (name, found) ∧ name ∉ acceptedNames items ∧ P 0 found) ∨
        ∃ index found, lastAt? items index = some (name, found) ∧ P (index + 1) found := by
  constructor
  · rintro ⟨index, found, hlast, hfound⟩
    cases index with
    | zero =>
      obtain ⟨hcontainer, hname⟩ := lastAt?_zero_eq_some_iff.1 hlast
      exact Or.inl ⟨found, hcontainer, hname, hfound⟩
    | succ index => exact Or.inr ⟨index, found, hlast, hfound⟩
  · rintro (⟨found, hcontainer, hname, hfound⟩ | ⟨index, found, hlast, hfound⟩)
    · exact ⟨0, found, lastAt?_zero_eq_some_iff.2 ⟨hcontainer, hname⟩, hfound⟩
    · exact ⟨index + 1, found, hlast, hfound⟩

/-! ## Collecting a list -/

/-- The text of the pointer to the image of the entry at an index of the list at a path. -/
def imagePointer (path : List String) (index : Nat) : String :=
  Pointer.encode (path ++ [toString index, "image"])

/-- The containers that are collected from entries, the first of which has the index `start`. -/
def collected (path : List String) (start : Nat) (items : List Json) : List (String × Image) :=
  (items.zipIdx start).filterMap fun entry =>
    (container? entry.1).map (placed (imagePointer path entry.2))

theorem accepted_readList (document : Json) (path : List String) :
    accepted (readList document path) = collected path 0 ((document.itemsAt? path).getD []) := by
  unfold accepted readList collected
  rw [List.filterMap_filterMap]
  refine congrArg (List.filterMap · _) (funext fun entry => ?_)
  obtain ⟨item, index⟩ := entry
  dsimp only
  unfold container? imagePointer
  cases item.asObject? with
  | none => rfl
  | some fields =>
    have hplace := toOption_readContainer (path ++ [toString index]) fields
    rw [List.append_assoc] at hplace
    exact hplace

theorem collected_cons (path : List String) (start : Nat) (item : Json) (items : List Json) :
    collected path start (item :: items) =
      ((container? item).map (placed (imagePointer path start))).toList ++
        collected path (start + 1) items := by
  unfold collected
  rw [List.zipIdx_cons, List.filterMap_cons]
  cases container? item <;> rfl

/-- From one entry an image is collected under the name of the entry. -/
theorem get?_toList_placed_iff {place : String} :
    Fields.get? name ((container? item).map (placed place)).toList.reverse = some image ↔
      ∃ found, container? item = some (name, found) ∧ image = { found with pointer := place } := by
  constructor
  · intro h
    have hmem := List.mem_reverse.1 (Fields.mem_of_get? h)
    obtain ⟨⟨_, found⟩, hcontainer, hplaced⟩ :=
      Option.map_eq_some_iff.1 (Option.mem_toList.1 hmem)
    obtain ⟨rfl, rfl⟩ := Prod.mk.inj hplaced
    exact ⟨found, hcontainer, rfl⟩
  · rintro ⟨found, hcontainer, rfl⟩
    rw [hcontainer]
    exact if_pos rfl

/-- Under a name the image of the last entry with the name is collected. -/
theorem get?_collected_iff {start : Nat} :
    Fields.get? name (collected path start items).reverse = some image ↔
      ∃ index found, lastAt? items index = some (name, found) ∧
        image = { found with pointer := imagePointer path (start + index) } := by
  induction items generalizing start image with
  | nil => simp [collected, Fields.get?, lastAt?]
  | cons item items ih =>
    have hshift (index : Nat) : start + 1 + index = start + (index + 1) := by omega
    rw [collected_cons, List.reverse_append, Fields.get?_append, exists_lastAt?_cons]
    cases hrest : Fields.get? name (collected path (start + 1) items).reverse with
    | some later =>
      -- An entry after the first has the name, so the first is not the last one.
      obtain ⟨last, other, hlast, -⟩ := ih.1 hrest
      have hname := mem_acceptedNames_iff_lastAt?.2 ⟨last, other, hlast⟩
      rw [Option.some_or, ← hrest, ih]
      simp only [hshift]
      refine ⟨Or.inr, fun h => h.resolve_left ?_⟩
      rintro ⟨-, -, habsent, -⟩
      exact habsent hname
    | none =>
      -- No entry after the first has the name, so the first is the last one if it has it.
      have hname : name ∉ acceptedNames items := by
        intro hmem
        obtain ⟨last, other, hlast⟩ := mem_acceptedNames_iff_lastAt?.1 hmem
        rw [ih.2 ⟨last, other, hlast, rfl⟩] at hrest
        cases hrest
      rw [Option.none_or, get?_toList_placed_iff]
      constructor
      · rintro ⟨found, hcontainer, himage⟩
        exact Or.inl ⟨found, hcontainer, hname, himage⟩
      · rintro (⟨found, hcontainer, -, himage⟩ | ⟨index, found, hlast, -⟩)
        · exact ⟨found, hcontainer, himage⟩
        · exact absurd (mem_acceptedNames_iff_lastAt?.2 ⟨index, found, hlast⟩) hname

/-- **The images that are collected from a list** are those of the last accepted entry with each
name, with the place of that entry. -/
theorem mem_values_collected_iff :
    image ∈ (Dict.ofList (collected path 0 items)).values ↔
      ∃ index name found, lastAt? items index = some (name, found) ∧
        image = { found with pointer := imagePointer path index } := by
  rw [Dict.mem_values_ofList_iff]
  constructor
  · rintro ⟨name, hname⟩
    obtain ⟨index, found, hlast, himage⟩ := get?_collected_iff.1 hname
    rw [Nat.zero_add] at himage
    exact ⟨index, name, found, hlast, himage⟩
  · rintro ⟨index, name, found, hlast, himage⟩
    exact ⟨name, get?_collected_iff.2 ⟨index, found, hlast, by rw [Nat.zero_add]; exact himage⟩⟩

end WorkloadImages

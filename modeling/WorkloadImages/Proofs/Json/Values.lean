import WorkloadImages.Json.Basic
import WorkloadImages.Proofs.Dict

/-!
# The values that are read

What every value has that was read from a text: its integers have 64 bits, and its objects keep
their fields in order of their keys. How deeply containers are nested in it is its depth.

## Main definitions

* `Json.WellFormed`: integers of 64 bits and objects in order
* `Json.depth`: the number of containers in one another
* `Json.mapFloats`: a value with its double precision numbers changed
* `Json.NoDeeper`: what is well formed and as deep as another value at most

## Main results

* `Json.induction`: a property of a value from that of what it holds
* `Json.depth_le_iff_arr`, `Json.depth_le_iff_obj`: the depth of a container
-/

namespace WorkloadImages.Json

/-! ## Induction -/

/-- **Induction on a value**: a container has a property if all values in it have. -/
@[elab_as_elim]
theorem induction {motive : Json → Prop} (null : motive null) (bool : ∀ b, motive (bool b))
    (int : ∀ n, motive (int n)) (float : ∀ x, motive (float x)) (str : ∀ s, motive (str s))
    (arr : ∀ items, (∀ item ∈ items, motive item) → motive (arr items))
    (obj : ∀ fields : Fields Json, (∀ field ∈ fields, motive field.2) → motive (obj fields)) :
    ∀ value, motive value
  | .null => null
  | .bool b => bool b
  | .int n => int n
  | .float x => float x
  | .str s => str s
  | .arr items => arr items fun item _ => induction null bool int float str arr obj item
  | .obj fields => obj fields fun field _ => induction null bool int float str arr obj field.2
termination_by value => sizeOf value
decreasing_by
  · have hmem := List.sizeOf_lt_of_mem ‹item ∈ items›
    simp only [Json.arr.sizeOf_spec]
    omega
  · have hmem := List.sizeOf_lt_of_mem ‹field ∈ fields›
    obtain ⟨key, value⟩ := field
    simp only [Json.obj.sizeOf_spec, Prod.mk.sizeOf_spec] at hmem ⊢
    omega

theorem exists_eq_obj {value : Json} (h : value.isObject = true) :
    ∃ fields, value = obj fields := by
  cases value with
  | obj fields => exact ⟨fields, rfl⟩
  | _ => cases h

/-! ## Well-formed values -/

/-- A value whose integers have 64 bits, with or without a sign, and whose objects keep their
fields in order. -/
inductive WellFormed : Json → Prop where
  | null : WellFormed null
  | bool (b : Bool) : WellFormed (bool b)
  | int {n : Int} (hlow : -(Nat.pow 2 63 : Nat) ≤ n) (hhigh : n < (Nat.pow 2 64 : Nat)) :
    WellFormed (int n)
  | float (x : Binary64) : WellFormed (float x)
  | str (s : String) : WellFormed (str s)
  | arr {items : List Json} (h : ∀ item ∈ items, WellFormed item) : WellFormed (arr items)
  | obj {fields : Fields Json} (hsorted : fields.Sorted)
      (h : ∀ field ∈ fields, WellFormed field.2) : WellFormed (obj fields)

/-- The fields of the last value with each key make a well-formed object. -/
theorem WellFormed.insertAll {fields : List (String × Json)}
    (h : ∀ field ∈ fields, WellFormed field.2) : WellFormed (.obj (Fields.insertAll [] fields)) :=
  .obj (Fields.sorted_insertAll Fields.sorted_nil fields) fun field hfield =>
    (Fields.mem_insertAll hfield).elim (nomatch ·) (h field)

/-! ## Depth -/

mutual

/-- The number of containers in one another. -/
def depth : Json → Nat
  | arr items => depthItems items + 1
  | obj fields => depthFields fields + 1
  | null => 0
  | bool _ => 0
  | int _ => 0
  | float _ => 0
  | str _ => 0
termination_by structural value => value

/-- The greatest depth of items. -/
def depthItems : List Json → Nat
  | [] => 0
  | item :: items => max (depth item) (depthItems items)
termination_by structural items => items

/-- The greatest depth of the values of fields. -/
def depthFields : List (String × Json) → Nat
  | [] => 0
  | field :: fields => max (depthField field) (depthFields fields)
termination_by structural fields => fields

/-- The depth of the value of a field. -/
def depthField : String × Json → Nat
  | (_, value) => depth value
termination_by structural field => field

end

theorem depthItems_le_iff {items : List Json} {bound : Nat} :
    depthItems items ≤ bound ↔ ∀ item ∈ items, depth item ≤ bound := by
  induction items with
  | nil => simp [depthItems]
  | cons item items ih => rw [depthItems, Nat.max_le, ih, List.forall_mem_cons]

theorem depthFields_le_iff {fields : Fields Json} {bound : Nat} :
    depthFields fields ≤ bound ↔ ∀ field ∈ fields, depth field.2 ≤ bound := by
  induction fields with
  | nil => simp [depthFields]
  | cons field fields ih =>
    obtain ⟨key, value⟩ := field
    rw [depthFields, depthField, Nat.max_le, ih, List.forall_mem_cons]

theorem depth_le_iff_arr {items : List Json} {bound : Nat} :
    depth (arr items) ≤ bound + 1 ↔ ∀ item ∈ items, depth item ≤ bound := by
  rw [depth, Nat.add_le_add_iff_right, depthItems_le_iff]

theorem depth_le_iff_obj {fields : Fields Json} {bound : Nat} :
    depth (obj fields) ≤ bound + 1 ↔ ∀ field ∈ fields, depth field.2 ≤ bound := by
  rw [depth, Nat.add_le_add_iff_right, depthFields_le_iff]

/-! ## Other double precision numbers -/

section MapFloats

variable (change : Binary64 → Binary64)

mutual

/-- The value with its double precision numbers changed. -/
def mapFloats : Json → Json
  | float x => float (change x)
  | arr items => arr (mapFloatsItems items)
  | obj fields => obj (mapFloatsFields fields)
  | null => null
  | bool b => bool b
  | int n => int n
  | str s => str s
termination_by structural value => value

/-- Items with their double precision numbers changed. -/
def mapFloatsItems : List Json → List Json
  | [] => []
  | item :: items => mapFloats item :: mapFloatsItems items
termination_by structural items => items

/-- Fields with the double precision numbers in their values changed. -/
def mapFloatsFields : List (String × Json) → List (String × Json)
  | [] => []
  | field :: fields => mapFloatsField field :: mapFloatsFields fields
termination_by structural fields => fields

/-- A field with the double precision numbers in its value changed. -/
def mapFloatsField : String × Json → String × Json
  | (key, value) => (key, mapFloats value)
termination_by structural field => field

end

theorem mapFloatsItems_eq (items : List Json) :
    mapFloatsItems change items = items.map (mapFloats change) := by
  induction items with
  | nil => rfl
  | cons item items ih => rw [mapFloatsItems, ih, List.map_cons]

theorem mapFloatsFields_eq (fields : Fields Json) :
    mapFloatsFields change fields = fields.mapValues (mapFloats change) := by
  induction fields with
  | nil => rfl
  | cons field fields ih =>
    obtain ⟨key, value⟩ := field
    rw [mapFloatsFields, ih]
    rfl

@[simp] theorem mapFloats_arr (items : List Json) :
    mapFloats change (arr items) = arr (items.map (mapFloats change)) := by
  rw [mapFloats, mapFloatsItems_eq]

@[simp] theorem mapFloats_obj (fields : Fields Json) :
    mapFloats change (obj fields) = obj (fields.mapValues (mapFloats change)) := by
  rw [mapFloats, mapFloatsFields_eq]

end MapFloats

/-! ## Values that go no deeper -/

/-- What may stand for a value: it is well formed if the value is, and no deeper. -/
structure NoDeeper (changed value : Json) : Prop where
  wellFormed : value.WellFormed → changed.WellFormed
  depth_le : changed.depth ≤ value.depth

namespace NoDeeper

variable {value changed : Json}

theorem refl (value : Json) : NoDeeper value value := ⟨id, Nat.le_refl _⟩

/-- A text may stand for anything. -/
theorem str (text : String) (value : Json) : NoDeeper (.str text) value :=
  ⟨fun _ => .str text, Nat.zero_le _⟩

theorem arr {items changed : List Json}
    (h : ∀ item ∈ changed, ∃ old ∈ items, NoDeeper item old) :
    NoDeeper (.arr changed) (.arr items) where
  wellFormed hvalue := by
    cases hvalue with
    | arr hitems =>
      refine .arr fun item hitem => ?_
      obtain ⟨old, hold, hno⟩ := h item hitem
      exact hno.wellFormed (hitems old hold)
  depth_le := by
    rw [Json.depth, Json.depth, Nat.add_le_add_iff_right, depthItems_le_iff]
    intro item hitem
    obtain ⟨old, hold, hno⟩ := h item hitem
    exact Nat.le_trans hno.depth_le (depthItems_le_iff.1 (Nat.le_refl _) old hold)

theorem obj {fields changed : Fields Json} (hkeys : changed.map (·.1) = fields.map (·.1))
    (h : ∀ field ∈ changed, ∃ old ∈ fields, NoDeeper field.2 old.2) :
    NoDeeper (.obj changed) (.obj fields) where
  wellFormed hvalue := by
    cases hvalue with
    | obj hsorted hfields =>
      have hsorted : (fields.map (·.1)).Pairwise (· < ·) := List.pairwise_map.2 hsorted
      rw [← hkeys] at hsorted
      refine .obj (List.pairwise_map.1 hsorted) fun field hfield => ?_
      obtain ⟨old, hold, hno⟩ := h field hfield
      exact hno.wellFormed (hfields old hold)
  depth_le := by
    rw [Json.depth, Json.depth, Nat.add_le_add_iff_right, depthFields_le_iff]
    intro field hfield
    obtain ⟨old, hold, hno⟩ := h field hfield
    exact Nat.le_trans hno.depth_le (depthFields_le_iff.1 (Nat.le_refl _) old hold)

/-- Other double precision numbers change nothing of this. -/
theorem mapFloats (change : Binary64 → Binary64) (value : Json) :
    NoDeeper (value.mapFloats change) value := by
  induction value using Json.induction with
  | arr items ih =>
    rw [mapFloats_arr]
    refine arr fun item hitem => ?_
    obtain ⟨old, hold, rfl⟩ := List.mem_map.1 hitem
    exact ⟨old, hold, ih old hold⟩
  | obj fields ih =>
    rw [mapFloats_obj]
    refine obj (by simp [Fields.mapValues]) fun field hfield => ?_
    obtain ⟨old, hold, rfl⟩ := List.mem_map.1 hfield
    exact ⟨old, hold, ih old hold⟩
  | float x => exact ⟨fun _ => .float _, Nat.le_refl _⟩
  | _ => exact refl _

end NoDeeper

end WorkloadImages.Json

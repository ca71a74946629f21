import WorkloadImages.Json.Pointer

/-!
# Changing a value inside a value

A field that is there is changed in place: its place in the object stays, and so do the other
fields. Along a path of fields the same is done in every object on the way. What a pointer changes
below such a path is a change of this kind.

## Main definitions

* `Fields.modify`: entries with the first value under a key changed
* `Json.modifyField`, `Json.modifyPath`: a value with a field, or what a path leads to, changed

## Main results

* `Json.atPath?_modifyPath`: what is found at the path afterwards
* `Json.modifyPath_eq_self_iff`: when nothing is changed
* `Json.modifyAt?_append`: a change by a pointer that begins with a path of fields
-/

namespace WorkloadImages

/-! ## Entries -/

namespace Fields

variable {α : Type} {key key' : String} {change change' : α → α}

/-- The entries with the first value under a key changed, if there is one. -/
def modify (key : String) (change : α → α) : Fields α → Fields α
  | [] => []
  | (k, v) :: rest => if k = key then (k, change v) :: rest else (k, v) :: modify key change rest

theorem set_eq_modify (key : String) (value : α) (fields : Fields α) :
    set key value fields = modify key (fun _ => value) fields := by
  induction fields with
  | nil => rfl
  | cons entry rest ih =>
    obtain ⟨k, v⟩ := entry
    rw [set, modify, ih]

@[simp] theorem get?_modify_self (key : String) (change : α → α) (fields : Fields α) :
    get? key (modify key change fields) = (get? key fields).map change := by
  induction fields with
  | nil => rfl
  | cons entry rest ih =>
    obtain ⟨k, v⟩ := entry
    by_cases h : k = key
    · simp [modify, get?, h]
    · simp [modify, get?, h, ih]

theorem get?_modify_of_ne (h : key ≠ key') (change : α → α) (fields : Fields α) :
    get? key' (modify key change fields) = get? key' fields := by
  induction fields with
  | nil => rfl
  | cons entry rest ih =>
    obtain ⟨k, v⟩ := entry
    by_cases hk : k = key
    · subst hk
      simp [modify, get?, h]
    · simp [modify, get?, hk, ih]

theorem modify_modify (key : String) (change change' : α → α) (fields : Fields α) :
    modify key change (modify key change' fields) =
      modify key (fun value => change (change' value)) fields := by
  induction fields with
  | nil => rfl
  | cons entry rest ih =>
    obtain ⟨k, v⟩ := entry
    by_cases h : k = key
    · simp [modify, h]
    · simp [modify, h, ih]

theorem modify_comm (h : key ≠ key') (change change' : α → α) (fields : Fields α) :
    modify key change (modify key' change' fields) =
      modify key' change' (modify key change fields) := by
  induction fields with
  | nil => rfl
  | cons entry rest ih =>
    obtain ⟨k, v⟩ := entry
    -- The entry is the first with one of the keys, or both changes pass it over.
    by_cases hk : k = key
    · subst hk
      simp [modify, h]
    · by_cases hk' : k = key'
      · subst hk'
        simp [modify, hk]
      · simp [modify, hk, hk', ih]

theorem map_fst_modify (key : String) (change : α → α) (fields : Fields α) :
    (modify key change fields).map (·.1) = fields.map (·.1) := by
  induction fields with
  | nil => rfl
  | cons entry rest ih =>
    obtain ⟨k, v⟩ := entry
    by_cases h : k = key
    · simp [modify, h]
    · simp [modify, h, ih]

/-- Only the value under the key counts for what a change does. -/
theorem modify_congr {fields : Fields α}
    (h : ∀ value, get? key fields = some value → change value = change' value) :
    modify key change fields = modify key change' fields := by
  induction fields with
  | nil => rfl
  | cons entry rest ih =>
    obtain ⟨k, v⟩ := entry
    by_cases hk : k = key
    · have hv := h v (by simp [get?, hk])
      simp [modify, hk, hv]
    · have hrest := ih fun value hvalue => h value (by simpa [get?, hk] using hvalue)
      simp [modify, hk, hrest]

theorem modify_id (key : String) (fields : Fields α) :
    modify key (fun value => value) fields = fields := by
  induction fields with
  | nil => rfl
  | cons entry rest ih =>
    obtain ⟨k, v⟩ := entry
    simp [modify, ih]

end Fields

namespace Json

variable {key key' : String} {path : List String} {change change' : Json → Json}
  {value inner changed : Json}

/-! ## Fields -/

/-- The value with a field changed, if it is an object that has the field. -/
def modifyField (key : String) (change : Json → Json) : Json → Json
  | obj fields => obj (Fields.modify key change fields)
  | value => value

@[simp] theorem field?_modifyField_self (key : String) (change : Json → Json) (value : Json) :
    (modifyField key change value).field? key = (value.field? key).map change := by
  cases value with
  | obj fields => exact Fields.get?_modify_self key change fields
  | _ => rfl

theorem field?_modifyField_of_ne (h : key ≠ key') (change : Json → Json) (value : Json) :
    (modifyField key change value).field? key' = value.field? key' := by
  cases value with
  | obj fields => exact Fields.get?_modify_of_ne h change fields
  | _ => rfl

theorem modifyField_modifyField (key : String) (change change' : Json → Json) (value : Json) :
    modifyField key change (modifyField key change' value) =
      modifyField key (fun inner => change (change' inner)) value := by
  cases value with
  | obj fields => exact congrArg obj (Fields.modify_modify key change change' fields)
  | _ => rfl

theorem modifyField_comm (h : key ≠ key') (change change' : Json → Json) (value : Json) :
    modifyField key change (modifyField key' change' value) =
      modifyField key' change' (modifyField key change value) := by
  cases value with
  | obj fields => exact congrArg obj (Fields.modify_comm h change change' fields)
  | _ => rfl

theorem modifyField_congr
    (h : ∀ inner, value.field? key = some inner → change inner = change' inner) :
    modifyField key change value = modifyField key change' value := by
  cases value with
  | obj fields => exact congrArg obj (Fields.modify_congr h)
  | _ => rfl

theorem modifyField_id (key : String) (value : Json) :
    modifyField key (fun inner => inner) value = value := by
  cases value with
  | obj fields => exact congrArg obj (Fields.modify_id key fields)
  | _ => rfl

/-- Nothing is changed exactly if the field, if there is one, is not. -/
theorem modifyField_eq_self_iff (key : String) (change : Json → Json) (value : Json) :
    modifyField key change value = value ↔
      ∀ inner, value.field? key = some inner → change inner = inner := by
  constructor
  · intro h inner hinner
    have hchanged := field?_modifyField_self key change value
    rw [h, hinner] at hchanged
    exact (Option.some.inj hchanged).symm
  · intro h
    rw [modifyField_congr h, modifyField_id]

/-! ## Paths -/

/-- The value with what a path of fields leads to changed, if it leads anywhere. -/
def modifyPath : List String → (Json → Json) → Json → Json
  | [], change => change
  | key :: keys, change => modifyField key (modifyPath keys change)

theorem atPath?_cons (value : Json) (key : String) (keys : List String) :
    value.atPath? (key :: keys) = (value.field? key).bind (atPath? · keys) := by
  rw [atPath?]
  cases value.field? key <;> rfl

theorem atPath?_singleton (value : Json) (key : String) :
    value.atPath? [key] = value.field? key := by
  rw [atPath?_cons]
  cases value.field? key <;> rfl

theorem atPath?_append (value : Json) (first second : List String) :
    value.atPath? (first ++ second) = (value.atPath? first).bind (atPath? · second) := by
  induction first generalizing value with
  | nil => rfl
  | cons key keys ih =>
    rw [List.cons_append, atPath?_cons, atPath?_cons]
    cases value.field? key with
    | none => rfl
    | some inner => exact ih inner

theorem itemsAt?_eq_some_iff {items : List Json} :
    value.itemsAt? path = some items ↔ value.atPath? path = some (arr items) := by
  unfold itemsAt?
  cases value.atPath? path with
  | none => simp
  | some inner => cases inner <;> simp [asArray?]

/-- The items of an array in an object that a path leads to. -/
theorem itemsAt?_append_eq_some_iff {items : List Json} :
    value.itemsAt? (path ++ [key]) = some items ↔
      ∃ inner, value.atPath? path = some inner ∧ inner.field? key = some (arr items) := by
  rw [itemsAt?_eq_some_iff, atPath?_append, Option.bind_eq_some_iff]
  simp only [atPath?_singleton]

/-- The value at a path has been changed, and the path leads where it did. -/
theorem atPath?_modifyPath (path : List String) (change : Json → Json) (value : Json) :
    (modifyPath path change value).atPath? path = (value.atPath? path).map change := by
  induction path generalizing value with
  | nil => rfl
  | cons key keys ih =>
    rw [atPath?_cons, atPath?_cons, modifyPath, field?_modifyField_self]
    cases value.field? key with
    | none => rfl
    | some inner => exact ih inner

theorem modifyPath_append (first second : List String) (change : Json → Json) (value : Json) :
    modifyPath (first ++ second) change value =
      modifyPath first (modifyPath second change) value := by
  induction first generalizing value with
  | nil => rfl
  | cons key keys ih => exact modifyField_congr fun inner _ => ih inner

theorem modifyPath_modifyPath (path : List String) (change change' : Json → Json) (value : Json) :
    modifyPath path change (modifyPath path change' value) =
      modifyPath path (fun inner => change (change' inner)) value := by
  induction path generalizing value with
  | nil => rfl
  | cons key keys ih =>
    refine (modifyField_modifyField key _ _ value).trans ?_
    exact modifyField_congr fun inner _ => ih inner

theorem modifyPath_congr
    (h : ∀ inner, value.atPath? path = some inner → change inner = change' inner) :
    modifyPath path change value = modifyPath path change' value := by
  induction path generalizing value with
  | nil => exact h value rfl
  | cons key keys ih =>
    refine modifyField_congr fun inner hinner => ih fun last hlast => h last ?_
    rw [atPath?_cons, hinner]
    exact hlast

theorem modifyPath_id (path : List String) (value : Json) :
    modifyPath path (fun inner => inner) value = value := by
  induction path generalizing value with
  | nil => rfl
  | cons key keys ih => exact (modifyField_eq_self_iff key _ value).2 fun inner _ => ih inner

/-- Nothing is changed exactly if the value at the path, if there is one, is not. -/
theorem modifyPath_eq_self_iff (path : List String) (change : Json → Json) (value : Json) :
    modifyPath path change value = value ↔
      ∀ inner, value.atPath? path = some inner → change inner = inner := by
  constructor
  · intro h inner hinner
    have hchanged := atPath?_modifyPath path change value
    rw [h, hinner] at hchanged
    exact (Option.some.inj hchanged).symm
  · intro h
    rw [modifyPath_congr h, modifyPath_id]

/-! ## Pointers -/

/-- What a pointer changes below a path of fields is changed at that path. -/
theorem modifyAt?_append {change : Json → Option Json} {pointer : Pointer}
    (hinner : value.atPath? path = some inner)
    (hchanged : modifyAt? change pointer inner = some changed) :
    modifyAt? change (path ++ pointer) value = some (modifyPath path (fun _ => changed) value) := by
  induction path generalizing value with
  | nil =>
    obtain rfl := Option.some.inj hinner
    exact hchanged
  | cons key keys ih =>
    cases value with
    | obj fields =>
      -- Storing the changed field is changing the field: it is the value that is found there.
      rw [atPath?_cons] at hinner
      obtain ⟨child, hchild, hkeys⟩ := Option.bind_eq_some_iff.1 hinner
      have hget : (obj fields).child? key = some child := hchild
      have hset : setChild key (modifyPath keys (fun _ => changed) child) (obj fields) =
          modifyPath (key :: keys) (fun _ => changed) (obj fields) := by
        refine congrArg obj ((Fields.set_eq_modify ..).trans (Fields.modify_congr ?_))
        intro found hfound
        rw [Option.some.inj (hchild.symm.trans hfound)]
      rw [List.cons_append, modifyAt?, hget]
      simp only [ih hkeys, Option.map_some, hset]
    | _ => cases hinner

end Json

end WorkloadImages

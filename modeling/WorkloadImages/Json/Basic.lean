import WorkloadImages.Binary64.Basic
import WorkloadImages.Fields

/-!
# JSON values

The values that manifests hold. A number is an integer or a double precision number: the two are
told apart by how they are written. An object is a list of fields, kept in order of their keys by
whoever builds it.

## Main definitions

* `Json`: the values
* `Json.field?`, `Json.atPath?`: the fields of nested objects
-/

namespace WorkloadImages

/-- A JSON value. -/
inductive Json where
  | null
  | bool (value : Bool)
  /-- A number written as an integer. -/
  | int (value : Int)
  /-- Any other number. -/
  | float (value : Binary64)
  | str (value : String)
  | arr (items : List Json)
  /-- An object, by its fields in order. -/
  | obj (fields : List (String × Json))

namespace Json

instance : Inhabited Json := ⟨null⟩

/-! ## Equality -/

mutual

/-- Whether two values are the same. -/
def same : Json → Json → Bool
  | null, null => true
  | bool a, bool b => a = b
  | int a, int b => a = b
  | float a, float b => a = b
  | str a, str b => a = b
  | arr a, arr b => sameItems a b
  | obj a, obj b => sameFields a b
  | _, _ => false
termination_by structural j => j

/-- Whether two lists hold the same values. -/
def sameItems : List Json → List Json → Bool
  | [], [] => true
  | a :: as, b :: bs => same a b && sameItems as bs
  | _, _ => false
termination_by structural js => js

/-- Whether two lists hold the same fields. -/
def sameFields : List (String × Json) → List (String × Json) → Bool
  | [], [] => true
  | a :: as, b :: bs => sameField a b && sameFields as bs
  | _, _ => false
termination_by structural fs => fs

/-- Whether two fields have the same key and value. -/
def sameField : String × Json → String × Json → Bool
  | (k, a), (l, b) => k = l && same a b
termination_by structural f => f

end

mutual

theorem same_iff : ∀ a b : Json, same a b = true ↔ a = b
  | null, b => by cases b <;> simp [same]
  | bool a, b => by cases b <;> simp [same]
  | int a, b => by cases b <;> simp [same]
  | float a, b => by cases b <;> simp [same]
  | str a, b => by cases b <;> simp [same]
  | arr a, b => by cases b <;> simp [same, sameItems_iff a]
  | obj a, b => by cases b <;> simp [same, sameFields_iff a]

theorem sameItems_iff : ∀ as bs : List Json, sameItems as bs = true ↔ as = bs
  | [], bs => by cases bs <;> simp [sameItems]
  | a :: as, bs => by
    cases bs with
    | nil => simp [sameItems]
    | cons b bs => simp [sameItems, same_iff a b, sameItems_iff as bs]

theorem sameFields_iff : ∀ as bs : List (String × Json), sameFields as bs = true ↔ as = bs
  | [], bs => by cases bs <;> simp [sameFields]
  | (k, a) :: as, bs => by
    cases bs with
    | nil => simp [sameFields]
    | cons b bs =>
      obtain ⟨l, b⟩ := b
      simp [sameFields, sameField, same_iff a b, sameFields_iff as bs]

end

instance : DecidableEq Json := fun a b =>
  decidable_of_iff (same a b = true) (same_iff a b)

/-! ## Access -/

/-- The text that the value is, if it is one. -/
def asString? : Json → Option String
  | str s => some s
  | _ => none

/-- The items of an array. -/
def asArray? : Json → Option (List Json)
  | arr items => some items
  | _ => none

/-- The fields of an object. -/
def asObject? : Json → Option (Fields Json)
  | obj fields => some fields
  | _ => none

/-- Whether the value is an object. -/
def isObject : Json → Bool
  | obj _ => true
  | _ => false

/-- Whether the value is null. -/
def isNull : Json → Bool
  | null => true
  | _ => false

/-- The field of an object. -/
def field? (key : String) : Json → Option Json
  | obj fields => Fields.get? key fields
  | _ => none

/-- The value that a path of fields leads to through nested objects. -/
def atPath? : Json → List String → Option Json
  | value, [] => some value
  | value, key :: keys =>
    match value.field? key with
    | some inner => inner.atPath? keys
    | none => none

/-- The array that a path of fields leads to. -/
def itemsAt? (value : Json) (path : List String) : Option (List Json) :=
  match value.atPath? path with
  | some inner => inner.asArray?
  | none => none

end Json

end WorkloadImages

import WorkloadImages.Fields

/-!
# Dictionaries

Entries whose keys stand in strictly increasing order: there is one entry for a key at most, and
two dictionaries with the same entries are the same.

## Main definitions

* `Dict`, `Dict.ofList`: the entries of a list, of which a later one wins
-/

namespace WorkloadImages

/-- Values with text keys in strictly increasing order. -/
structure Dict (α : Type) where
  /-- The entries. -/
  entries : Fields α
  /-- The keys stand in strictly increasing order. -/
  sorted : entries.Sorted

namespace Dict

variable {α : Type}

instance [DecidableEq α] : DecidableEq (Dict α) := fun a b =>
  if h : a.entries = b.entries then
    isTrue (by cases a; cases b; cases h; rfl)
  else isFalse fun e => h (e ▸ rfl)

/-- No entries. -/
def empty : Dict α := ⟨[], Fields.sorted_nil⟩

instance : EmptyCollection (Dict α) := ⟨empty⟩

instance : Inhabited (Dict α) := ⟨empty⟩

/-- The entries of a list, of which a later one wins over one with the same key. -/
def ofList (entries : List (String × α)) : Dict α :=
  ⟨Fields.insertAll [] entries, Fields.sorted_insertAll Fields.sorted_nil entries⟩

/-- The value under a key. -/
def get? (d : Dict α) (key : String) : Option α := Fields.get? key d.entries

/-- The values, by increasing key. -/
def values (d : Dict α) : List α := d.entries.map (·.2)

/-- The number of entries. -/
def size (d : Dict α) : Nat := d.entries.length

/-- Whether there are no entries. -/
def isEmpty (d : Dict α) : Bool := d.entries.isEmpty

end Dict

end WorkloadImages

/-!
# Keyed entries

A list of values with text keys, as an object holds its fields. Looking a key up finds its first
entry, and storing a value keeps keys that increase in increasing order.

## Main definitions

* `Fields.get?`, `Fields.insert`, `Fields.set`, `Fields.erase`: single entries
* `Fields.Sorted`: the keys increase

## Main results

* `Fields.get?_insert`: what is found after a value is stored
* `Fields.sorted_insert`: storing a value keeps the keys in increasing order
-/

namespace WorkloadImages

/-- Values with text keys, in order. -/
abbrev Fields (α : Type) := List (String × α)

namespace Fields

variable {α β : Type}

/-- The value of the first entry with the key. -/
def get? (key : String) : Fields α → Option α
  | [] => none
  | (k, v) :: rest => if k = key then some v else get? key rest

/-- The entries with a value stored under a key, in place of the value it had or before the first
greater key. -/
def insert (key : String) (value : α) : Fields α → Fields α
  | [] => [(key, value)]
  | (k, v) :: rest =>
    if k = key then (k, value) :: rest
    else if key < k then (key, value) :: (k, v) :: rest
    else (k, v) :: insert key value rest

/-- The entries with another value in the first entry with the key, if there is one. -/
def set (key : String) (value : α) : Fields α → Fields α
  | [] => []
  | (k, v) :: rest => if k = key then (k, value) :: rest else (k, v) :: set key value rest

/-- The entries without the first one with the key. -/
def erase (key : String) : Fields α → Fields α
  | [] => []
  | (k, v) :: rest => if k = key then rest else (k, v) :: erase key rest

/-- The entries after all those of a list have been stored in turn. -/
def insertAll (entries : Fields α) (added : List (String × α)) : Fields α :=
  added.foldl (fun fields (key, value) => insert key value fields) entries

theorem get?_insert (key key' : String) (value : α) (fields : Fields α) :
    get? key' (insert key value fields) = if key = key' then some value else get? key' fields := by
  induction fields with
  | nil => simp [insert, get?]
  | cons entry rest ih =>
    obtain ⟨k, v⟩ := entry
    unfold insert
    split
    · next h => subst h; by_cases h : k = key' <;> simp [get?, h]
    · next h =>
      split
      · simp [get?]
      · by_cases h' : k = key'
        · subst h'
          simp [get?, Ne.symm h]
        · simp [get?, h', ih]

theorem mem_insert {entry : String × α} {key : String} {value : α} {fields : Fields α}
    (h : entry ∈ insert key value fields) : entry = (key, value) ∨ entry ∈ fields := by
  induction fields with
  | nil => simpa [insert] using h
  | cons first rest ih =>
    obtain ⟨k, v⟩ := first
    unfold insert at h
    split at h
    · next hk => subst hk; rcases List.mem_cons.1 h with h | h <;> simp [h]
    · split at h
      · rcases List.mem_cons.1 h with h | h <;> simp_all
      · rcases List.mem_cons.1 h with h | h
        · simp [h]
        · rcases ih h with h | h <;> simp [h]

/-- The keys stand in strictly increasing order. -/
def Sorted (fields : Fields α) : Prop := fields.Pairwise (·.1 < ·.1)

theorem sorted_nil : Sorted ([] : Fields α) := List.Pairwise.nil

theorem sorted_insert {fields : Fields α} (h : Sorted fields) (key : String) (value : α) :
    Sorted (insert key value fields) := by
  induction fields with
  | nil => simp [insert, Sorted]
  | cons entry rest ih =>
    obtain ⟨k, v⟩ := entry
    obtain ⟨hk, hrest⟩ := List.pairwise_cons.1 h
    unfold insert
    split
    · next e => subst e; exact List.pairwise_cons.2 ⟨hk, hrest⟩
    · next ne =>
      split
      · next lt =>
        refine List.pairwise_cons.2 ⟨fun a ha => ?_, h⟩
        rcases List.mem_cons.1 ha with rfl | ha
        · exact lt
        · exact String.lt_trans lt (hk a ha)
      · next nlt =>
        have lt : k < key := by
          rcases String.le_total key k with le | le
          · exact absurd (String.le_antisymm (String.not_lt.1 nlt) le) ne
          · exact Decidable.by_contra fun c =>
              ne (String.le_antisymm le (String.not_lt.1 c))
        refine List.pairwise_cons.2 ⟨fun a ha => ?_, ih hrest⟩
        rcases mem_insert ha with rfl | ha
        · exact lt
        · exact hk a ha

theorem sorted_insertAll {fields : Fields α} (h : Sorted fields) (added : List (String × α)) :
    Sorted (insertAll fields added) := by
  induction added generalizing fields with
  | nil => exact h
  | cons entry rest ih => exact ih (sorted_insert h entry.1 entry.2)

end Fields

end WorkloadImages

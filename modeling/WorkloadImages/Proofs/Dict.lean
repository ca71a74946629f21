import WorkloadImages.Dict

/-!
# What dictionaries hold

A dictionary holds an entry exactly if looking its key up finds its value. In the dictionary of a
list that is the last value that the list has for the key.

## Main definitions

* `Dict.mapValues`: a dictionary with every value changed

## Main results

* `Fields.get?_insertAll`: what is found after the entries of a list have been stored
* `Fields.Sorted.insertAll_nil`: storing entries in order of their keys
* `Dict.mem_entries_iff`: the entries of a dictionary
* `Dict.mem_values_ofList_iff`: the values of the dictionary of a list
* `Dict.ofList_mapValues`: values are changed before or after they are stored
-/

namespace WorkloadImages

variable {α : Type} {key : String} {value : α} {fields : Fields α}

namespace Fields

theorem get?_append (key : String) (first second : Fields α) :
    get? key (first ++ second) = (get? key first).or (get? key second) := by
  induction first with
  | nil => rfl
  | cons entry rest ih =>
    obtain ⟨k, v⟩ := entry
    by_cases h : k = key
    · simp [get?, h]
    · simp [get?, h, ih]

/-- What is stored later is found first. -/
theorem get?_insertAll (key : String) (fields : Fields α) (added : List (String × α)) :
    get? key (insertAll fields added) = (get? key added.reverse).or (get? key fields) := by
  induction added generalizing fields with
  | nil => rfl
  | cons entry rest ih =>
    obtain ⟨k, v⟩ := entry
    have hstored : insertAll fields ((k, v) :: rest) = insertAll (insert k v fields) rest := rfl
    rw [hstored, ih, get?_insert, List.reverse_cons, get?_append]
    cases get? key rest.reverse with
    | some found => rfl
    | none => by_cases h : k = key <;> simp [get?, h]

theorem mem_insertAll {entry : String × α} {added : List (String × α)}
    (h : entry ∈ insertAll fields added) : entry ∈ fields ∨ entry ∈ added := by
  induction added generalizing fields with
  | nil => exact Or.inl h
  | cons first rest ih =>
    rcases ih h with h | h
    · rcases mem_insert h with rfl | h
      · exact Or.inr List.mem_cons_self
      · exact Or.inl h
    · exact Or.inr (List.mem_cons_of_mem _ h)

/-- An entry with a greater key than all others comes after them. -/
theorem insert_of_forall_lt (h : ∀ entry ∈ fields, entry.1 < key) (value : α) :
    insert key value fields = fields ++ [(key, value)] := by
  induction fields with
  | nil => rfl
  | cons entry rest ih =>
    obtain ⟨k, v⟩ := entry
    have hlt : k < key := h _ List.mem_cons_self
    have hne : k ≠ key := by
      rintro rfl
      exact String.lt_irrefl k hlt
    have hnot : ¬key < k := fun hgt => String.lt_irrefl k (String.lt_trans hlt hgt)
    have hrest := ih fun entry hentry => h entry (List.mem_cons_of_mem _ hentry)
    rw [insert, if_neg hne, if_neg hnot, hrest, List.cons_append]

/-- Entries in order of their keys are stored as they are. -/
theorem Sorted.insertAll_nil (hsorted : fields.Sorted) : insertAll [] fields = fields := by
  -- Each entry that is stored has a greater key than those before it.
  have hgeneral : ∀ stored : Fields α, (stored ++ fields).Sorted →
      insertAll stored fields = stored ++ fields := by
    induction fields with
    | nil => exact fun stored _ => (List.append_nil stored).symm
    | cons entry rest ih =>
      intro stored hstored
      obtain ⟨-, -, hbetween⟩ := List.pairwise_append.1 hstored
      have hstep : insertAll stored (entry :: rest) =
          insertAll (insert entry.1 entry.2 stored) rest := rfl
      have hlast : insert entry.1 entry.2 stored = stored ++ [entry] :=
        insert_of_forall_lt
          (fun other hother => hbetween other hother entry List.mem_cons_self) entry.2
      rw [hstep, hlast, ih (List.pairwise_cons.1 hsorted).2 _ (by simpa using hstored),
        List.append_assoc]
      rfl
  exact hgeneral [] hsorted

theorem mem_of_get? (h : get? key fields = some value) : (key, value) ∈ fields := by
  induction fields with
  | nil => cases h
  | cons entry rest ih =>
    obtain ⟨k, v⟩ := entry
    rw [get?] at h
    split at h
    · next hk =>
      obtain rfl := Option.some.inj h
      rw [hk]
      exact List.mem_cons_self
    · exact List.mem_cons_of_mem _ (ih h)

theorem Sorted.get?_of_mem (hsorted : fields.Sorted) (h : (key, value) ∈ fields) :
    get? key fields = some value := by
  induction fields with
  | nil => cases h
  | cons entry rest ih =>
    obtain ⟨k, v⟩ := entry
    obtain ⟨hfirst, hrest⟩ := List.pairwise_cons.1 hsorted
    rcases List.mem_cons.1 h with h | h
    · obtain ⟨rfl, rfl⟩ := Prod.mk.inj h
      simp [get?]
    · have hlt : k < key := hfirst _ h
      have hne : k ≠ key := by
        rintro rfl
        exact String.lt_irrefl k hlt
      rw [get?, if_neg hne, ih hrest h]

variable {β : Type}

/-- The entries with every value changed. -/
def mapValues (change : α → β) (fields : Fields α) : Fields β :=
  List.map (fun entry => (entry.1, change entry.2)) fields

theorem get?_mapValues (change : α → β) (key : String) (fields : Fields α) :
    get? key (fields.mapValues change) = (get? key fields).map change := by
  induction fields with
  | nil => rfl
  | cons entry rest ih =>
    obtain ⟨k, v⟩ := entry
    unfold mapValues at ih ⊢
    rw [List.map_cons, get?, get?, ih]
    split <;> rfl

theorem insert_mapValues (change : α → β) (key : String) (value : α) (fields : Fields α) :
    insert key (change value) (mapValues change fields) =
      mapValues change (insert key value fields) := by
  induction fields with
  | nil => rfl
  | cons entry rest ih =>
    obtain ⟨k, v⟩ := entry
    unfold mapValues at ih ⊢
    rw [List.map_cons, insert, insert, ih]
    split
    · rfl
    · split <;> rfl

theorem insertAll_mapValues (change : α → β) (fields : Fields α) (added : List (String × α)) :
    insertAll (mapValues change fields) (mapValues change added) =
      mapValues change (insertAll fields added) := by
  induction added generalizing fields with
  | nil => rfl
  | cons entry rest ih =>
    have hstored : insertAll (mapValues change fields) (mapValues change (entry :: rest)) =
        insertAll (insert entry.1 (change entry.2) (mapValues change fields))
          (mapValues change rest) := rfl
    rw [hstored, insert_mapValues, ih]
    rfl

theorem Sorted.mapValues (hsorted : fields.Sorted) (change : α → β) :
    (fields.mapValues change).Sorted :=
  List.pairwise_map.2 hsorted

end Fields

namespace Dict

theorem mem_entries_iff (d : Dict α) : (key, value) ∈ d.entries ↔ d.get? key = some value :=
  ⟨d.sorted.get?_of_mem, Fields.mem_of_get?⟩

theorem get?_ofList (key : String) (entries : List (String × α)) :
    (ofList entries).get? key = Fields.get? key entries.reverse := by
  unfold get? ofList
  rw [Fields.get?_insertAll, Fields.get?, Option.or_none]

/-- The values are those that come last under their key. -/
theorem mem_values_ofList_iff {entries : List (String × α)} :
    value ∈ (ofList entries).values ↔ ∃ key, Fields.get? key entries.reverse = some value := by
  unfold values
  rw [List.mem_map]
  constructor
  · rintro ⟨⟨key, value⟩, hmem, rfl⟩
    exact ⟨key, by rw [← get?_ofList, ← mem_entries_iff]; exact hmem⟩
  · rintro ⟨key, hget⟩
    exact ⟨(key, value), by rw [mem_entries_iff, get?_ofList]; exact hget, rfl⟩

/-- The entries of a dictionary make it up again. -/
theorem ofList_entries (d : Dict α) : ofList d.entries = d := by
  have hentries := d.sorted.insertAll_nil
  unfold ofList
  congr 1

theorem eq_empty_of_isEmpty {d : Dict α} (h : d.isEmpty = true) : d = ∅ := by
  obtain ⟨entries, hsorted⟩ := d
  obtain rfl := List.isEmpty_iff.1 h
  rfl

variable {β : Type}

/-- The dictionary with every value changed. -/
def mapValues (change : α → β) (d : Dict α) : Dict β :=
  ⟨d.entries.mapValues change, d.sorted.mapValues change⟩

theorem ofList_mapValues (change : α → β) (entries : List (String × α)) :
    ofList (Fields.mapValues change entries) = (ofList entries).mapValues change := by
  have hentries := Fields.insertAll_mapValues change [] entries
  unfold ofList mapValues
  congr 1

end Dict

end WorkloadImages

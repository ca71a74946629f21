import WorkloadImages.Proofs.Json.Pointer
import WorkloadImages.Proofs.Json.Update

/-!
# What a change by a pointer leaves alone

Two pointers are apart when neither leads into what the other leads to. A change by one of them is
not seen by the other, so that changes by both may be made in either order. A value around the
changed one keeps its outline: it has as many items as it had, or fields with the same keys.

## Main definitions

* `Pointer.Apart`: neither pointer leads into what the other leads to
* `Json.outline`: what shows of a value without the values in it

## Main results

* `Json.at?_modifyAt?_self`: what a pointer leads to after a change by it
* `Json.at?_modifyAt?_of_apart`: what it leads to after a change by one that is apart
* `Json.outline_at?_modifyAt?`: the outline of what it leads to after a change further inside
* `Json.modifyAt?_comm`: changes that are apart are made in either order
-/

namespace WorkloadImages

namespace Pointer

/-- Neither pointer leads into what the other leads to. -/
def Apart (first second : Pointer) : Prop := ¬ first <+: second ∧ ¬ second <+: first

variable {token token' : String} {first second : Pointer}

theorem Apart.symm (h : Apart first second) : Apart second first := ⟨h.2, h.1⟩

theorem apart_cons (h : Apart (token :: first) (token' :: second)) :
    token ≠ token' ∨ (token = token' ∧ Apart first second) := by
  by_cases htoken : token = token'
  · subst htoken
    refine Or.inr ⟨rfl, fun hleads => h.1 ?_, fun hleads => h.2 ?_⟩
    · exact List.cons_prefix_cons.2 ⟨rfl, hleads⟩
    · exact List.cons_prefix_cons.2 ⟨rfl, hleads⟩
  · exact Or.inl htoken

end Pointer

namespace Json

variable {token token' : String} {value value' child old : Json} {pointer other : Pointer}
  {change : Json → Option Json}

theorem child?_setChild_self (h : value.child? token = some old) :
    (setChild token child value).child? token = some child := by
  cases value with
  | obj fields =>
    have hget : Fields.get? token fields = some old := h
    rw [setChild, child?, Fields.set_eq_modify, Fields.get?_modify_self, hget, Option.map_some]
  | arr items =>
    rw [child?] at h
    cases hindex : Pointer.index? token with
    | none => rw [hindex] at h; cases h
    | some index =>
      rw [hindex] at h
      obtain ⟨hlt, -⟩ := List.getElem?_eq_some_iff.1 h
      simp only [setChild, child?, hindex]
      exact List.getElem?_set_self hlt
  | _ => cases h

/-- Another token does not see the change: two indices have two tokens. -/
theorem child?_setChild_of_ne (h : token ≠ token') (child value : Json) :
    (setChild token child value).child? token' = value.child? token' := by
  cases value with
  | obj fields =>
    rw [setChild, child?, child?, Fields.set_eq_modify, Fields.get?_modify_of_ne h]
  | arr items =>
    cases hindex : Pointer.index? token with
    | none => simp only [setChild, hindex]
    | some index =>
      simp only [setChild, child?, hindex]
      cases hindex' : Pointer.index? token' with
      | none => rfl
      | some index' =>
        have hne : index ≠ index' := by
          rintro rfl
          exact h (Pointer.index?_injective hindex hindex')
        exact List.getElem?_set_ne hne
  | _ => rfl

theorem modifyAt?_cons_eq_some_iff :
    modifyAt? change (token :: pointer) value = some value' ↔
      ∃ child child', value.child? token = some child ∧
        modifyAt? change pointer child = some child' ∧ value' = setChild token child' value := by
  rw [modifyAt?]
  cases value.child? token with
  | none => simp
  | some child =>
    constructor
    · intro h
      obtain ⟨child', hmodify, hvalue⟩ := Option.map_eq_some_iff.1 h
      exact ⟨child, child', rfl, hmodify, hvalue.symm⟩
    · rintro ⟨_, child', hchild, hmodify, rfl⟩
      obtain rfl := Option.some.inj hchild
      exact Option.map_eq_some_iff.2 ⟨child', hmodify, rfl⟩

/-- A pointer leads to the changed value after a change by it. -/
theorem at?_modifyAt?_self (h : modifyAt? change pointer value = some value') :
    ∃ old new, value.at? pointer = some old ∧ change old = some new ∧
      value'.at? pointer = some new := by
  induction pointer generalizing value value' with
  | nil => exact ⟨value, value', rfl, h, rfl⟩
  | cons token pointer ih =>
    obtain ⟨child, child', hchild, hmodify, rfl⟩ := modifyAt?_cons_eq_some_iff.1 h
    obtain ⟨old, new, hold, hchange, hnew⟩ := ih hmodify
    refine ⟨old, new, ?_, hchange, ?_⟩
    · rw [at?, hchild]
      exact hold
    · rw [at?, child?_setChild_self hchild]
      exact hnew

/-- A value can be put wherever a pointer leads to one. -/
theorem exists_replaceAt? (h : value.at? pointer = some old) (new : Json) :
    ∃ value', replaceAt? pointer new value = some value' := by
  induction pointer generalizing value with
  | nil => exact ⟨new, rfl⟩
  | cons token pointer ih =>
    rw [at?] at h
    cases hchild : value.child? token with
    | none =>
      rw [hchild] at h
      cases h
    | some child =>
      rw [hchild] at h
      obtain ⟨child', hreplace⟩ := ih h
      exact ⟨_, modifyAt?_cons_eq_some_iff.2 ⟨child, child', hchild, hreplace, rfl⟩⟩

/-- **A pointer that is apart** leads to what it did. -/
theorem at?_modifyAt?_of_apart (h : modifyAt? change pointer value = some value')
    (hapart : Pointer.Apart pointer other) : value'.at? other = value.at? other := by
  induction pointer generalizing value value' other with
  | nil => exact absurd List.nil_prefix hapart.1
  | cons token pointer ih =>
    cases other with
    | nil => exact absurd List.nil_prefix hapart.2
    | cons token' other =>
      obtain ⟨child, child', hchild, hmodify, rfl⟩ := modifyAt?_cons_eq_some_iff.1 h
      -- The pointers part at the first token, or behind it in the same field or item.
      rcases Pointer.apart_cons hapart with hne | ⟨rfl, hrest⟩
      · rw [at?, at?, child?_setChild_of_ne hne]
      · rw [at?, at?, child?_setChild_self hchild, hchild]
        exact ih hmodify hrest

/-! ## Outlines -/

/-- What shows of a value without the values in it. -/
inductive Outline where
  /-- A value that holds no others. -/
  | plain (value : Json)
  /-- An array, by the number of its items. -/
  | array (length : Nat)
  /-- An object, by its keys in order. -/
  | object (keys : List String)

/-- The outline of a value. -/
def outline : Json → Outline
  | arr items => .array items.length
  | obj fields => .object (fields.map (·.1))
  | value => .plain value

theorem outline_setChild (token : String) (child value : Json) :
    (setChild token child value).outline = value.outline := by
  cases value with
  | obj fields =>
    simp only [setChild, outline, Fields.set_eq_modify]
    apply congrArg
    exact Fields.map_fst_modify token _ fields
  | arr items =>
    simp only [setChild]
    cases Pointer.index? token with
    | none => rfl
    | some index => simp only [outline, List.length_set]
  | _ => rfl

/-- What a pointer leads to keeps its outline, unless the change is made to it or around it. -/
theorem outline_at?_modifyAt? (h : modifyAt? change pointer value = some value')
    (hinside : ¬ pointer <+: other) :
    (value'.at? other).map outline = (value.at? other).map outline := by
  induction pointer generalizing value value' other with
  | nil => exact absurd List.nil_prefix hinside
  | cons token pointer ih =>
    obtain ⟨child, child', hchild, hmodify, rfl⟩ := modifyAt?_cons_eq_some_iff.1 h
    cases other with
    | nil =>
      show some (setChild token child' value).outline = some value.outline
      rw [outline_setChild]
    | cons token' other =>
      by_cases htoken : token = token'
      · subst htoken
        rw [at?, at?, child?_setChild_self hchild, hchild]
        apply ih hmodify
        intro hleads
        exact hinside (List.cons_prefix_cons.2 ⟨rfl, hleads⟩)
      · rw [at?, at?, child?_setChild_of_ne htoken]

/-! ## Changes in either order -/

theorem setChild_setChild (token : String) (child child' value : Json) :
    setChild token child (setChild token child' value) = setChild token child value := by
  cases value with
  | obj fields =>
    simp only [setChild, Fields.set_eq_modify]
    rw [Fields.modify_modify]
  | arr items =>
    cases hindex : Pointer.index? token with
    | none => simp only [setChild, hindex]
    | some index => simp only [setChild, hindex, List.set_set]
  | _ => rfl

theorem setChild_comm (h : token ≠ token') (child child' value : Json) :
    setChild token child (setChild token' child' value) =
      setChild token' child' (setChild token child value) := by
  cases value with
  | obj fields =>
    simp only [setChild, Fields.set_eq_modify]
    rw [Fields.modify_comm h]
  | arr items =>
    cases hindex : Pointer.index? token with
    | none =>
      cases hindex' : Pointer.index? token' <;> simp only [setChild, hindex, hindex']
    | some index =>
      cases hindex' : Pointer.index? token' with
      | none => simp only [setChild, hindex, hindex']
      | some index' =>
        have hne : index' ≠ index := by
          rintro rfl
          exact h (Pointer.index?_injective hindex hindex')
        simp only [setChild, hindex, hindex', List.set_comm _ _ hne]
  | _ => rfl

/-- Two changes that are apart, made in the other order. -/
theorem exists_modifyAt?_swap {change' : Json → Option Json} {between after : Json}
    (hapart : Pointer.Apart pointer other)
    (hfirst : modifyAt? change pointer value = some between)
    (hsecond : modifyAt? change' other between = some after) :
    ∃ between', modifyAt? change' other value = some between' ∧
      modifyAt? change pointer between' = some after := by
  induction pointer generalizing value between after other with
  | nil => exact absurd List.nil_prefix hapart.1
  | cons token pointer ih =>
    cases other with
    | nil => exact absurd List.nil_prefix hapart.2
    | cons token' other =>
      obtain ⟨child, new, hchild, hmodify, rfl⟩ := modifyAt?_cons_eq_some_iff.1 hfirst
      obtain ⟨child', new', hchild', hmodify', rfl⟩ := modifyAt?_cons_eq_some_iff.1 hsecond
      rcases Pointer.apart_cons hapart with hne | ⟨rfl, hrest⟩
      · -- The changes are made to two fields or items.
        rw [child?_setChild_of_ne hne] at hchild'
        refine ⟨_, modifyAt?_cons_eq_some_iff.2 ⟨child', new', hchild', hmodify', rfl⟩, ?_⟩
        refine modifyAt?_cons_eq_some_iff.2 ⟨child, new, ?_, hmodify, ?_⟩
        · rw [child?_setChild_of_ne hne.symm, hchild]
        · exact setChild_comm hne.symm new' new value
      · -- They are made in the same field or item, further inside.
        rw [child?_setChild_self hchild] at hchild'
        obtain rfl := Option.some.inj hchild'
        obtain ⟨between, hother, hagain⟩ := ih hrest hmodify hmodify'
        refine ⟨_, modifyAt?_cons_eq_some_iff.2 ⟨child, between, hchild, hother, rfl⟩, ?_⟩
        refine modifyAt?_cons_eq_some_iff.2
          ⟨between, new', child?_setChild_self hchild, hagain, ?_⟩
        rw [setChild_setChild, setChild_setChild]

/-- **Changes that are apart** come to the same in either order, also when one cannot be made. -/
theorem modifyAt?_comm (hapart : Pointer.Apart pointer other) (change change' : Json → Option Json)
    (value : Json) :
    (modifyAt? change pointer value).bind (modifyAt? change' other) =
      (modifyAt? change' other value).bind (modifyAt? change pointer) := by
  ext after
  simp only [Option.bind_eq_some_iff]
  constructor
  · rintro ⟨between, hfirst, hsecond⟩
    exact exists_modifyAt?_swap hapart hfirst hsecond
  · rintro ⟨between, hfirst, hsecond⟩
    exact exists_modifyAt?_swap hapart.symm hfirst hsecond

end Json

end WorkloadImages

import WorkloadImages.Proofs.Json.Frame

/-!
# Where the text of a pointer leads

A place in a value is reached in two ways: by following fields and items, and by the text of a
pointer that names them. Both lead to the same value. The texts of two pointers that are equally
deep and end in the same token do not begin with one another, unless the pointers are the same.

## Main definitions

* `Json.resolve?`: the value that the text of a pointer leads to

## Main results

* `Json.at?_of_atPath?`, `Json.at?_of_itemsAt?`: pointers lead where fields and items do
* `Pointer.eq_of_encodeChars_prefix`: the texts of pointers that begin with one another
-/

namespace WorkloadImages

/-! ## Texts -/

namespace Pointer

variable {first second : Pointer}

theorem encodeChars_append (first second : Pointer) :
    encodeChars (first ++ second) = encodeChars first ++ encodeChars second :=
  List.flatMap_append

theorem encode_append (first second : Pointer) :
    encode (first ++ second) = encode first ++ encode second := by
  simp only [encode, encodeChars_append, String.ofList_append]

theorem escape_injective {token token' : List Char} (h : escape token = escape token') :
    token = token' := by
  apply Option.some.inj
  rw [← unescape?_escape, h, unescape?_escape]

/-- Pointers are apart if the text of neither begins with that of the other. -/
theorem apart_of_encode (h : ¬ first.encode.toList <+: second.encode.toList)
    (h' : ¬ second.encode.toList <+: first.encode.toList) : Apart first second := by
  simp only [encode, String.toList_ofList] at h h'
  constructor
  · rintro ⟨rest, rfl⟩
    rw [encodeChars_append] at h
    exact h (List.prefix_append _ _)
  · rintro ⟨rest, rfl⟩
    rw [encodeChars_append] at h'
    exact h' (List.prefix_append _ _)

theorem exists_encodeChars_append_singleton (pointer : Pointer) (last : String) :
    ∃ cs, encodeChars (pointer ++ [last]) = '/' :: cs := by
  cases pointer with
  | nil => exact ⟨_, encodeChars_cons last []⟩
  | cons token pointer => exact ⟨_, encodeChars_cons token (pointer ++ [last])⟩

/-- **Of two pointers that are equally deep and end in the same token**, the text of one begins
with that of the other only if they are the same. -/
theorem eq_of_encodeChars_prefix {last : String} (hlength : first.length = second.length)
    (h : encodeChars (first ++ [last]) <+: encodeChars (second ++ [last])) : first = second := by
  induction first generalizing second with
  | nil => exact (List.eq_nil_of_length_eq_zero hlength.symm).symm
  | cons token first ih =>
    obtain ⟨token', second, rfl⟩ := List.exists_cons_of_length_eq_add_one hlength.symm
    rw [List.cons_append, List.cons_append, encodeChars_cons, encodeChars_cons,
      List.cons_prefix_cons] at h
    -- The slash after the first token is the first one: no escaped token holds a slash.
    obtain ⟨cs, hfirst⟩ := exists_encodeChars_append_singleton first last
    obtain ⟨cs', hsecond⟩ := exists_encodeChars_append_singleton second last
    have hcut := h.2
    rw [hfirst, hsecond] at hcut
    obtain ⟨htoken, hrest⟩ :=
      Text.prefix_cut (slash_not_mem_escape _) (slash_not_mem_escape _) hcut
    obtain rfl : token = token' := String.toList_inj.1 (escape_injective htoken)
    apply congrArg (token :: ·)
    apply ih (Nat.succ.inj hlength)
    rw [hfirst, hsecond, List.cons_prefix_cons]
    exact ⟨rfl, hrest⟩

end Pointer

/-! ## Values -/

namespace Json

variable {value inner item : Json} {path : List String} {items : List Json} {index : Nat}

/-- The value that the text of a pointer leads to. -/
def resolve? (text : String) (value : Json) : Option Json :=
  (Pointer.decode? text).bind fun pointer => value.at? pointer

@[simp] theorem resolve?_encode (pointer : Pointer) (value : Json) :
    value.resolve? pointer.encode = value.at? pointer := by
  rw [resolve?, Pointer.decode?_encode, Option.bind_some]

theorem at?_append (value : Json) (first second : Pointer) :
    value.at? (first ++ second) = (value.at? first).bind (at? · second) := by
  induction first generalizing value with
  | nil => rfl
  | cons token first ih =>
    rw [List.cons_append, at?, at?]
    cases value.child? token with
    | none => rfl
    | some child => exact ih child

/-- The fields of nested objects are reached by a pointer as well. -/
theorem at?_of_atPath? (h : value.atPath? path = some inner) : value.at? path = some inner := by
  induction path generalizing value with
  | nil => exact h
  | cons key keys ih =>
    cases value with
    | obj fields =>
      rw [atPath?_cons] at h
      obtain ⟨child, hchild, hkeys⟩ := Option.bind_eq_some_iff.1 h
      have hget : (obj fields).child? key = some child := hchild
      rw [at?, hget]
      exact ih hkeys
    | _ => cases h

/-- The items of an array are reached by the decimal digits of their indices. -/
theorem at?_of_itemsAt? (hitems : value.itemsAt? path = some items)
    (hitem : items[index]? = some item) : value.at? (path ++ [toString index]) = some item := by
  have hpath := at?_of_atPath? (itemsAt?_eq_some_iff.1 hitems)
  rw [at?_append, hpath, Option.bind_some, at?, child?, Pointer.index?_toString]
  simp only [hitem]
  rfl

/-- A field of a value that a pointer leads to. -/
theorem at?_field {pointer : Pointer} {fields : Fields Json} {key : String}
    (h : value.at? pointer = some (.obj fields)) :
    value.at? (pointer ++ [key]) = Fields.get? key fields := by
  rw [at?_append, h, Option.bind_some, at?, child?]
  cases Fields.get? key fields <;> rfl

end Json

end WorkloadImages

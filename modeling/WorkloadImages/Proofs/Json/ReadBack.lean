import WorkloadImages.Json.Reader
import WorkloadImages.Proofs.Json.Floats
import WorkloadImages.Proofs.Json.Strings
import WorkloadImages.Proofs.Json.Values

/-!
# Values written and read back

The text of a value is read as the value, with every double precision number as it is read from its
own text. The reader does so exactly if containers are nested in the value no deeper than it allows.

## Main definitions

* `Json.rawOf`: the tree of the text of a value

## Main results

* `Json.Raw.readValue_write`: the text of a value is read as its tree, whatever follows
* `Json.ofRaw?_rawOf`: the value of the tree of a value
* `Json.read_compact`, `Json.exists_read_compact_eq_error`: the text of a value that is not nested
  too deeply is read back, and that of another one is refused
* `Json.wellFormed_of_read`: what every value has that was read
-/

namespace WorkloadImages.Json

/-! ## Trees -/

mutual

/-- The tree of the text of a value. -/
def rawOf : Json → Raw
  | null => .null
  | bool b => .bool b
  | int n => .number (.ofInt n)
  | float x => .number (decimalLayout.numeral x)
  | str s => .string (s.toList.map pieceOf)
  | arr items => .array (rawItems items)
  | obj fields => .object (rawFields fields)
termination_by structural value => value

/-- The trees of items. -/
def rawItems : List Json → List Raw
  | [] => []
  | item :: items => rawOf item :: rawItems items
termination_by structural items => items

/-- The trees of fields. -/
def rawFields : List (String × Json) → List (List Piece × Raw)
  | [] => []
  | field :: fields => rawField field :: rawFields fields
termination_by structural fields => fields

/-- The tree of a field. -/
def rawField : String × Json → List Piece × Raw
  | (key, value) => (key.toList.map pieceOf, rawOf value)
termination_by structural field => field

end

/-! ## The first character of a value -/

namespace Raw

/-- A text that begins with a character that is neither space nor the end of a container. -/
def Opens (cs : List Char) : Prop :=
  ∃ c rest, cs = c :: rest ∧ isSpace c = false ∧ c ≠ ']' ∧ c ≠ '\x7d'

theorem Opens.append {cs : List Char} (h : Opens cs) (rest : List Char) : Opens (cs ++ rest) := by
  obtain ⟨c, cs, rfl, hc⟩ := h
  exact ⟨c, cs ++ rest, rfl, hc⟩

theorem skipSpace_cons {c : Char} (h : isSpace c = false) (cs : List Char) :
    skipSpace (c :: cs) = c :: cs := by
  simp [skipSpace, h]

theorem skipSpace_of_opens {cs : List Char} (h : Opens cs) : skipSpace cs = cs := by
  obtain ⟨c, cs, rfl, hc, -⟩ := h
  exact skipSpace_cons hc cs

end Raw

/-- A character with which a number begins. -/
def OpensNumber (c : Char) : Prop := c.isDigit = true ∨ c = '-'

theorem OpensNumber.ne {c : Char} (h : OpensNumber c) :
    ∀ d ∈ [' ', '\t', '\n', '\r', '[', ']', '\x7b', '\x7d', 'n', 't', 'f', '"'], c ≠ d := by
  rintro d hd rfl
  simp only [List.mem_cons, List.not_mem_nil, or_false] at hd
  rcases h with h | rfl
  · rcases hd with rfl | rfl | rfl | rfl | rfl | rfl | rfl | rfl | rfl | rfl | rfl | rfl <;> cases h
  · revert hd
    decide

theorem OpensNumber.isSpace {c : Char} (h : OpensNumber c) : Raw.isSpace c = false := by
  have hne := h.ne
  simp only [List.forall_mem_cons] at hne
  simp [Raw.isSpace, hne.1, hne.2.1, hne.2.2.1, hne.2.2.2.1]

theorem exists_text_eq_cons (plus : Bool) {n : Numeral} (h : n.WellFormed) :
    ∃ c cs, n.text plus = c :: cs ∧ OpensNumber c := by
  unfold Numeral.text
  cases n.negative with
  | true => exact ⟨'-', _, rfl, Or.inr rfl⟩
  | false =>
    obtain ⟨c, cs, hcons⟩ := List.exists_cons_of_ne_nil h.whole_ne_nil
    refine ⟨c, cs ++ (Numeral.fractionText n.fraction ++ Numeral.exponentText plus n.exponent), ?_,
      Or.inl ?_⟩
    · simp [hcons]
    · exact h.whole_digits c (by rw [hcons]; exact List.mem_cons_self)

theorem opens_text (plus : Bool) {n : Numeral} (h : n.WellFormed) : Raw.Opens (n.text plus) := by
  obtain ⟨c, cs, hcons, hc⟩ := exists_text_eq_cons plus h
  exact ⟨c, cs, hcons, hc.isSpace, hc.ne _ (by simp), hc.ne _ (by simp)⟩

theorem opens_write (value : Json) : Raw.Opens value.write := by
  cases value with
  | null => exact ⟨'n', _, rfl, by decide⟩
  | bool b => cases b <;> exact ⟨_, _, rfl, by decide⟩
  | int n =>
    rw [write, writeScalar, ← Numeral.text_ofInt false]
    exact opens_text false (Numeral.wellFormed_ofInt n)
  | float x =>
    rw [write, writeScalar, DecimalLayout.write_eq]
    exact opens_text _ (decimalLayout.wellFormed_numeral x)
  | str s => exact ⟨'"', _, rfl, by decide⟩
  | arr items => exact ⟨'[', _, rfl, by decide⟩
  | obj fields => exact ⟨'\x7b', _, rfl, by decide⟩

theorem opens_writeItems {items : List Json} (h : items ≠ []) : Raw.Opens (writeItems items) := by
  match items, h with
  | [item], _ => exact opens_write item
  | item :: next :: rest, _ => exact (opens_write item).append _

theorem opens_writeFields {fields : Fields Json} (h : fields ≠ []) :
    Raw.Opens (writeFields fields) := by
  match fields, h with
  | [(key, value)], _ => exact ⟨'"', _, rfl, by decide⟩
  | (key, value) :: next :: rest, _ => exact ⟨'"', _, rfl, by decide⟩

/-! ## Reading what was written -/

namespace Raw

/-- A comma or the end of a container ends a number before it. -/
theorem endsNumber_cons {c : Char} (h : c ∈ [',', ']', '\x7d']) (cs : List Char) :
    EndsNumber (c :: cs) := by
  intro d hd
  obtain rfl : c = d := Option.some.inj hd
  revert h
  simp only [List.mem_cons, List.not_mem_nil, or_false]
  rintro (rfl | rfl | rfl) <;> decide

theorem readScalar_number {cs rest : List Char} {n : Numeral}
    (hopens : ∃ c after, cs = c :: after ∧ OpensNumber c)
    (h : readNumeral cs = some (n, rest)) : readScalar cs = some (number n, rest) := by
  obtain ⟨c, after, rfl, hc⟩ := hopens
  rw [readScalar, h]
  · rfl
  all_goals
    rintro other heq
    obtain rfl := (List.cons.inj heq).1
    exact absurd rfl (hc.ne _ (by simp))

theorem readScalar_text (plus : Bool) {n : Numeral} (h : n.WellFormed) {rest : List Char}
    (hrest : EndsNumber rest) : readScalar (n.text plus ++ rest) = some (number n, rest) := by
  obtain ⟨c, cs, hcons, hc⟩ := exists_text_eq_cons plus h
  exact readScalar_number ⟨c, cs ++ rest, by rw [hcons]; rfl, hc⟩ (readNumeral_text plus h hrest)

/-- A value that is no array and no object is read as a scalar. -/
theorem readValue_scalar {cs : List Char} (hopens : Opens cs) (harr : cs.head? ≠ some '[')
    (hobj : cs.head? ≠ some '\x7b') (fuel : Nat) : readValue (fuel + 1) cs = readScalar cs := by
  rw [readValue, skipSpace_of_opens hopens]
  split
  · exact absurd rfl harr
  · exact absurd rfl hobj
  · rfl

theorem readValue_items {cs : List Char} (hopens : Opens cs) (fuel : Nat) :
    readValue (fuel + 1) ('[' :: cs) =
      (readItems fuel cs).map fun (items, cs) => (array items, cs) := by
  rw [readValue, skipSpace_cons (by decide)]
  simp only [skipSpace_of_opens hopens]
  obtain ⟨c, rest, rfl, -, hc, -⟩ := hopens
  split
  · next heq => exact absurd (List.cons.inj heq).1 hc
  · rfl

theorem readValue_fields {cs : List Char} (hopens : Opens cs) (fuel : Nat) :
    readValue (fuel + 1) ('\x7b' :: cs) =
      (readFields fuel cs).map fun (fields, cs) => (object fields, cs) := by
  rw [readValue, skipSpace_cons (by decide)]
  simp only [skipSpace_of_opens hopens]
  obtain ⟨c, rest, rfl, -, -, hc⟩ := hopens
  split
  · next heq => exact absurd (List.cons.inj heq).1 hc
  · rfl

theorem Opens.length_pos {cs : List Char} (h : Opens cs) : 0 < cs.length := by
  obtain ⟨c, rest, rfl, -⟩ := h
  exact Nat.succ_pos _

/-- Whether a value is no array and no object. -/
def isScalar : Json → Bool
  | .arr _ => false
  | .obj _ => false
  | _ => true

/-- The text of a scalar does not begin like a container. -/
theorem head?_write_of_isScalar {value : Json} (h : isScalar value = true) :
    value.write.head? ≠ some '[' ∧ value.write.head? ≠ some '\x7b' := by
  have hnumber : ∀ {plus : Bool} {n : Numeral}, n.WellFormed →
      (n.text plus).head? ≠ some '[' ∧ (n.text plus).head? ≠ some '\x7b' := by
    intro plus n hn
    obtain ⟨c, cs, hcons, hc⟩ := exists_text_eq_cons plus hn
    rw [hcons, List.head?_cons]
    exact ⟨fun heq => hc.ne '[' (by simp) (Option.some.inj heq),
      fun heq => hc.ne '\x7b' (by simp) (Option.some.inj heq)⟩
  cases value with
  | null => decide
  | bool b => cases b <;> decide
  | int n =>
    rw [write, writeScalar, ← Numeral.text_ofInt false]
    exact hnumber (Numeral.wellFormed_ofInt n)
  | float x =>
    rw [write, writeScalar, DecimalLayout.write_eq]
    exact hnumber (decimalLayout.wellFormed_numeral x)
  | str s => exact ⟨by simp [write, writeScalar, quote], by simp [write, writeScalar, quote]⟩
  | arr items => cases h
  | obj fields => cases h

/-- A scalar is read from its text, whatever follows that is no part of it. -/
theorem readScalar_write {value : Json} (h : isScalar value = true) {rest : List Char}
    (hrest : EndsNumber rest) : readScalar (value.write ++ rest) = some (rawOf value, rest) := by
  cases value with
  | null => rfl
  | bool b => cases b <;> rfl
  | int n =>
    rw [write, writeScalar, ← Numeral.text_ofInt false]
    exact readScalar_text false (Numeral.wellFormed_ofInt n) hrest
  | float x =>
    rw [write, writeScalar, DecimalLayout.write_eq]
    exact readScalar_text _ (decimalLayout.wellFormed_numeral x) hrest
  | str s =>
    have hread := readString_flatMap_escapeChar s.toList rest
    have htext : (Json.str s).write ++ rest =
        '"' :: (s.toList.flatMap escapeChar ++ '"' :: rest) := by
      simp [write, writeScalar, quote]
    rw [htext, readScalar, hread]
    rfl
  | arr items => cases h
  | obj fields => cases h

theorem readValue_write_of_isScalar {value : Json} (h : isScalar value = true) {fuel : Nat}
    (hfuel : 3 * value.write.length ≤ fuel) {rest : List Char} (hrest : EndsNumber rest) :
    readValue fuel (value.write ++ rest) = some (rawOf value, rest) := by
  have hopens := opens_write value
  have hlength := hopens.length_pos
  obtain ⟨harr, hobj⟩ := head?_write_of_isScalar h
  obtain ⟨fuel, rfl⟩ : ∃ k, fuel = k + 1 := ⟨fuel - 1, by omega⟩
  have hhead : (value.write ++ rest).head? = value.write.head? :=
    List.head?_append_of_ne_nil _ (List.length_pos_iff.1 hlength)
  rw [readValue_scalar (hopens.append rest) (hhead ▸ harr) (hhead ▸ hobj),
    readScalar_write h hrest]

mutual

/-- **The text of a value is read as its tree**, whatever follows that does not continue a
number. -/
theorem readValue_write : ∀ (value : Json) (fuel : Nat) (_ : 3 * value.write.length ≤ fuel)
    {rest : List Char} (_ : EndsNumber rest),
    readValue fuel (value.write ++ rest) = some (rawOf value, rest)
  | .null, _, hfuel, _, hrest => readValue_write_of_isScalar rfl hfuel hrest
  | .bool _, _, hfuel, _, hrest => readValue_write_of_isScalar rfl hfuel hrest
  | .int _, _, hfuel, _, hrest => readValue_write_of_isScalar rfl hfuel hrest
  | .float _, _, hfuel, _, hrest => readValue_write_of_isScalar rfl hfuel hrest
  | .str _, _, hfuel, _, hrest => readValue_write_of_isScalar rfl hfuel hrest
  | .arr [], fuel + 1, _, _, _ => rfl
  -- The brackets of a container pay for the calls on the way to its items.
  | .arr (item :: items), fuel + 1, hfuel, rest, _ => by
    have hopens := (opens_writeItems (List.cons_ne_nil item items)).append (']' :: rest)
    have hitems := readItems_write (item :: items) (List.cons_ne_nil _ _) fuel (by
      simp only [write, List.length_cons, List.length_append, List.length_nil] at hfuel
      omega) rest
    have htext : (Json.arr (item :: items)).write ++ rest =
        '[' :: (writeItems (item :: items) ++ ']' :: rest) := by
      simp [write]
    rw [htext, readValue_items hopens, hitems]
    rfl
  | .obj [], fuel + 1, _, _, _ => rfl
  | .obj (field :: fields), fuel + 1, hfuel, rest, _ => by
    have hopens := (opens_writeFields (List.cons_ne_nil field fields)).append ('\x7d' :: rest)
    have hfields := readFields_write (field :: fields) (List.cons_ne_nil _ _) fuel (by
      simp only [write, List.length_cons, List.length_append, List.length_nil] at hfuel
      omega) rest
    have htext : (Json.obj (field :: fields)).write ++ rest =
        '\x7b' :: (writeFields (field :: fields) ++ '\x7d' :: rest) := by
      simp [write]
    rw [htext, readValue_fields hopens, hfields]
    rfl
  | .arr _, 0, hfuel, _, _ => by simp [write] at hfuel
  | .obj _, 0, hfuel, _, _ => by simp [write] at hfuel

/-- The texts of items are read up to the bracket behind them. -/
theorem readItems_write : ∀ (items : List Json) (_ : items ≠ []) (fuel : Nat)
    (_ : 3 * (writeItems items).length + 1 ≤ fuel) (rest : List Char),
    readItems fuel (writeItems items ++ ']' :: rest) = some (rawItems items, rest)
  | [item], _, fuel + 1, hfuel, rest => by
    have hitem := readValue_write item fuel (by
      rw [writeItems] at hfuel
      omega) (endsNumber_cons (c := ']') (by simp) rest)
    rw [writeItems, readItems, hitem]
    simp only [skipSpace_cons (show isSpace ']' = false by decide)]
    rfl
  | item :: next :: items, _, fuel + 1, hfuel, rest => by
    simp only [writeItems, List.length_cons, List.length_append] at hfuel
    have hitem := readValue_write item fuel (by omega)
      (endsNumber_cons (c := ',') (by simp) (writeItems (next :: items) ++ ']' :: rest))
    have hitems := readItems_write (next :: items) (List.cons_ne_nil _ _) fuel
      (by omega) rest
    rw [writeItems, List.append_assoc, List.cons_append, readItems, hitem]
    simp only [skipSpace_cons (show isSpace ',' = false by decide), hitems]
    rfl
  | _ :: _, _, 0, hfuel, _ => by omega

/-- The texts of fields are read up to the brace behind them. -/
theorem readFields_write : ∀ (fields : Fields Json) (_ : fields ≠ []) (fuel : Nat)
    (_ : 3 * (writeFields fields).length + 1 ≤ fuel) (rest : List Char),
    readFields fuel (writeFields fields ++ '\x7d' :: rest) = some (rawFields fields, rest)
  | [field], _, fuel + 1, hfuel, rest => by
    have hfield := readField_write field fuel (by
      rw [writeFields] at hfuel
      omega) (endsNumber_cons (c := '\x7d') (by simp) rest)
    rw [writeFields, readFields, hfield]
    simp only [skipSpace_cons (show isSpace '\x7d' = false by decide)]
    rfl
  | field :: next :: fields, _, fuel + 1, hfuel, rest => by
    simp only [writeFields, List.length_cons, List.length_append] at hfuel
    have hfield := readField_write field fuel (by omega)
      (endsNumber_cons (c := ',') (by simp) (writeFields (next :: fields) ++ '\x7d' :: rest))
    have hfields := readFields_write (next :: fields) (List.cons_ne_nil _ _) fuel
      (by omega) rest
    rw [writeFields, List.append_assoc, List.cons_append, readFields, hfield]
    simp only [skipSpace_cons (show isSpace ',' = false by decide), hfields]
    rfl
  | _ :: _, _, 0, hfuel, _ => by omega

/-- The text of a field is read as the trees of its key and value. -/
theorem readField_write : ∀ (field : String × Json) (fuel : Nat)
    (_ : 3 * (writeField field).length ≤ fuel) {rest : List Char} (_ : EndsNumber rest),
    readField fuel (writeField field ++ rest) = some (rawField field, rest)
  | (key, value), fuel + 1, hfuel, rest, hrest => by
    simp only [writeField, quote, List.length_cons, List.length_append] at hfuel
    have hkey := readString_flatMap_escapeChar key.toList (':' :: value.write ++ rest)
    have hvalue := readValue_write value fuel (by omega) hrest
    have htext : writeField (key, value) ++ rest =
        '"' :: (key.toList.flatMap escapeChar ++ '"' :: (':' :: value.write ++ rest)) := by
      simp [writeField, quote]
    rw [htext, readField, skipSpace_cons (by decide)]
    simp only [hkey]
    rw [List.cons_append, skipSpace_cons (by decide)]
    simp only [hvalue]
    rfl
  | (key, value), 0, hfuel, _, _ => by simp [writeField, quote] at hfuel

end

/-- The text of a value alone is read as its tree. -/
theorem read?_write (value : Json) : read? value.write = some (rawOf value) := by
  have hend : EndsNumber [] := fun _ hc => nomatch hc
  have hread := readValue_write value (3 * value.write.length + 3) (Nat.le_add_right _ _) hend
  rw [List.append_nil] at hread
  unfold read?
  simp only [hread]
  rfl

end Raw

/-! ## What the trees stand for -/

mutual

/-- **The value of the tree of a value** is the value with its numbers as they are read, if it is
not nested too deeply, and there is none if it is. -/
theorem ofRaw?_rawOf : ∀ (value : Json) (_ : value.WellFormed) (bound : Nat),
    ofRaw? bound (rawOf value) =
      if value.depth ≤ bound then some (value.mapFloats reread) else none
  | .null, _, _ => by simp [rawOf, ofRaw?, depth, mapFloats]
  | .bool _, _, _ => by simp [rawOf, ofRaw?, depth, mapFloats]
  | .int n, h, _ => by
    cases h with
    | int hlow hhigh => simp [rawOf, ofRaw?, depth, mapFloats, Numeral.integer?_ofInt hlow hhigh]
  | .float x, _, _ => by
    simp [rawOf, ofRaw?, depth, mapFloats, DecimalLayout.integer?_numeral, float?_numeral]
  | .str _, _, _ => by simp [rawOf, ofRaw?, depth, mapFloats, textOf?_map_pieceOf]
  | .arr items, _, 0 => by simp [rawOf, ofRaw?, depth]
  | .arr items, h, bound + 1 => by
    cases h with
    | arr hitems =>
      rw [rawOf, ofRaw?, ofRawItems?_rawItems items hitems bound, depth, mapFloats]
      simp only [Nat.add_le_add_iff_right]
      split <;> rfl
  | .obj fields, _, 0 => by simp [rawOf, ofRaw?, depth]
  | .obj fields, h, bound + 1 => by
    cases h with
    | obj hsorted hfields =>
      -- The fields are in order, so none of them moves when they are stored.
      have hstored : Fields.insertAll [] (mapFloatsFields reread fields) =
          mapFloatsFields reread fields := by
        rw [mapFloatsFields_eq]
        exact (hsorted.mapValues (mapFloats reread)).insertAll_nil
      rw [rawOf, ofRaw?, ofRawFields?_rawFields fields hfields bound, depth, mapFloats]
      simp only [Nat.add_le_add_iff_right]
      split
      · rw [Option.map_some, hstored]
      · rfl

/-- The values of the trees of items. -/
theorem ofRawItems?_rawItems : ∀ (items : List Json) (_ : ∀ item ∈ items, item.WellFormed)
    (bound : Nat), ofRawItems? bound (rawItems items) =
      if depthItems items ≤ bound then some (mapFloatsItems reread items) else none
  | [], _, _ => by simp [rawItems, ofRawItems?, depthItems, mapFloatsItems]
  | item :: items, h, bound => by
    obtain ⟨hfirst, hrest⟩ := List.forall_mem_cons.1 h
    rw [rawItems, ofRawItems?, ofRaw?_rawOf item hfirst bound,
      ofRawItems?_rawItems items hrest bound, depthItems, mapFloatsItems]
    simp only [Nat.max_le]
    by_cases hitem : item.depth ≤ bound <;> by_cases hitems : depthItems items ≤ bound <;>
      simp [hitem, hitems]

/-- The keys and values of the trees of fields. -/
theorem ofRawFields?_rawFields : ∀ (fields : List (String × Json))
    (_ : ∀ field ∈ fields, field.2.WellFormed) (bound : Nat),
    ofRawFields? bound (rawFields fields) =
      if depthFields fields ≤ bound then some (mapFloatsFields reread fields) else none
  | [], _, _ => by simp [rawFields, ofRawFields?, depthFields, mapFloatsFields]
  | field :: fields, h, bound => by
    obtain ⟨hfirst, hrest⟩ := List.forall_mem_cons.1 h
    rw [rawFields, ofRawFields?, ofRawField?_rawField field hfirst bound,
      ofRawFields?_rawFields fields hrest bound, depthFields, mapFloatsFields]
    simp only [Nat.max_le]
    by_cases hfield : depthField field ≤ bound <;>
      by_cases hfields : depthFields fields ≤ bound <;> simp [hfield, hfields]

/-- The key and the value of the tree of a field. -/
theorem ofRawField?_rawField : ∀ (field : String × Json) (_ : field.2.WellFormed) (bound : Nat),
    ofRawField? bound (rawField field) =
      if depthField field ≤ bound then some (mapFloatsField reread field) else none
  | (key, value), h, bound => by
    rw [rawField, ofRawField?, ofRaw?_rawOf value h bound, textOf?_map_pieceOf, depthField,
      mapFloatsField]
    by_cases hvalue : value.depth ≤ bound <;> simp [hvalue]

end

/-- **The text of a value that is not nested too deeply is read back**, with its double precision
numbers as they are read from theirs. -/
theorem read_compact {value : Json} (h : value.WellFormed) (hdepth : value.depth ≤ maxDepth) :
    read value.compact.toList = .ok (value.mapFloats reread) := by
  unfold read compact
  rw [String.toList_ofList]
  simp only [Raw.read?_write, ofRaw?_rawOf value h, if_pos hdepth]

/-- **The text of a value that is nested too deeply** is refused. -/
theorem exists_read_compact_eq_error {value : Json} (h : value.WellFormed)
    (hdepth : maxDepth < value.depth) : ∃ cause, read value.compact.toList = .error cause := by
  unfold read compact
  rw [String.toList_ofList]
  simp only [Raw.read?_write, ofRaw?_rawOf value h, if_neg (Nat.not_le.2 hdepth)]
  split <;> exact ⟨_, rfl⟩

/-! ## What has been read -/

theorem Numeral.integer?_bounds {n : Numeral} {value : Int} (h : n.integer? = some value) :
    -(Nat.pow 2 63 : Nat) ≤ value ∧ value < (Nat.pow 2 64 : Nat) := by
  unfold integer? significandLimit at h
  rw [Nat.pow_eq] at h ⊢
  split at h
  · cases h
  dsimp only at h
  split at h
  all_goals
    simp only [Option.ite_none_right_eq_some, Option.some.injEq] at h
    obtain ⟨hbound, rfl⟩ := h
    omega

mutual

/-- **The value of a tree** is well formed, and no deeper than the reader allows. -/
theorem wellFormed_of_ofRaw? : ∀ (raw : Raw) {bound : Nat} {value : Json}
    (_ : ofRaw? bound raw = some value), value.WellFormed ∧ value.depth ≤ bound
  | .null, _, _, h => by
    obtain rfl := Option.some.inj h
    exact ⟨.null, Nat.zero_le _⟩
  | .bool b, _, _, h => by
    obtain rfl := Option.some.inj h
    exact ⟨.bool b, Nat.zero_le _⟩
  | .number n, _, _, h => by
    rw [ofRaw?] at h
    split at h
    · next hn =>
      obtain rfl := Option.some.inj h
      obtain ⟨hlow, hhigh⟩ := Numeral.integer?_bounds hn
      exact ⟨.int hlow hhigh, Nat.zero_le _⟩
    · obtain ⟨x, -, rfl⟩ := Option.map_eq_some_iff.1 h
      exact ⟨.float x, Nat.zero_le _⟩
  | .string pieces, _, _, h => by
    rw [ofRaw?] at h
    obtain ⟨s, -, rfl⟩ := Option.map_eq_some_iff.1 h
    exact ⟨.str s, Nat.zero_le _⟩
  | .array items, bound + 1, _, h => by
    rw [ofRaw?] at h
    obtain ⟨values, hvalues, rfl⟩ := Option.map_eq_some_iff.1 h
    have hall := wellFormed_of_ofRawItems? items hvalues
    exact ⟨.arr fun item hitem => (hall item hitem).1,
      depth_le_iff_arr.2 fun item hitem => (hall item hitem).2⟩
  | .object fields, bound + 1, _, h => by
    rw [ofRaw?] at h
    obtain ⟨values, hvalues, rfl⟩ := Option.map_eq_some_iff.1 h
    have hall := wellFormed_of_ofRawFields? fields hvalues
    refine ⟨.insertAll fun field hfield => (hall field hfield).1,
      depth_le_iff_obj.2 fun field hfield => ?_⟩
    exact (Fields.mem_insertAll hfield).elim (nomatch ·) fun hmem => (hall field hmem).2
  | .array _, 0, _, h => nomatch h
  | .object _, 0, _, h => nomatch h

theorem wellFormed_of_ofRawItems? : ∀ (items : List Raw) {bound : Nat} {values : List Json}
    (_ : ofRawItems? bound items = some values),
    ∀ value ∈ values, value.WellFormed ∧ value.depth ≤ bound
  | [], _, _, h => by
    obtain rfl := Option.some.inj h
    exact fun _ hvalue => nomatch hvalue
  | item :: items, _, _, h => by
    rw [ofRawItems?] at h
    split at h
    · next hitem hitems =>
      obtain rfl := Option.some.inj h
      exact List.forall_mem_cons.2
        ⟨wellFormed_of_ofRaw? item hitem, wellFormed_of_ofRawItems? items hitems⟩
    · cases h

theorem wellFormed_of_ofRawFields? : ∀ (fields : List (List Piece × Raw)) {bound : Nat}
    {values : List (String × Json)} (_ : ofRawFields? bound fields = some values),
    ∀ field ∈ values, field.2.WellFormed ∧ field.2.depth ≤ bound
  | [], _, _, h => by
    obtain rfl := Option.some.inj h
    exact fun _ hfield => nomatch hfield
  | field :: fields, _, _, h => by
    rw [ofRawFields?] at h
    split at h
    · next hfield hfields =>
      obtain rfl := Option.some.inj h
      exact List.forall_mem_cons.2
        ⟨wellFormed_of_ofRawField? field hfield, wellFormed_of_ofRawFields? fields hfields⟩
    · cases h

theorem wellFormed_of_ofRawField? : ∀ (field : List Piece × Raw) {bound : Nat}
    {value : String × Json} (_ : ofRawField? bound field = some value),
    value.2.WellFormed ∧ value.2.depth ≤ bound
  | (key, raw), _, _, h => by
    rw [ofRawField?] at h
    split at h
    · next hvalue =>
      obtain rfl := Option.some.inj h
      exact wellFormed_of_ofRaw? raw hvalue
    · cases h

end

/-- **What has been read** is well formed, and no deeper than the reader allows. -/
theorem wellFormed_of_read {cs : List Char} {value : Json} (h : read cs = .ok value) :
    value.WellFormed ∧ value.depth ≤ maxDepth := by
  unfold read at h
  split at h
  · cases h
  · next raw hraw =>
    split at h
    · next found hfound =>
      obtain rfl := Except.ok.inj h
      exact wellFormed_of_ofRaw? raw hfound
    · split at h <;> cases h

end WorkloadImages.Json

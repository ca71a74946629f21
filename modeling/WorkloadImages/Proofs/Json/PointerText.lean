import WorkloadImages.Proofs.Json.Pointer

/-!
# Which texts write pointers

A text is refused as a pointer for two faults only: it does not begin with a slash, or it holds a
tilde with neither a zero nor a one behind it. Cutting the text into tokens changes nothing about
the second, since a slash is neither.

## Main definitions

* `Pointer.TildesEscape`: a zero or a one follows every tilde
* `Pointer.IsText`: the texts that write pointers

## Main results

* `Pointer.isSome_unescape?_iff`: the texts that are read as tokens
* `Pointer.isSome_decode?_iff`: the texts that are read as pointers
-/

namespace WorkloadImages

/-- A list is read exactly if every value in it is. -/
theorem isSome_mapM_iff {α β : Type} {read : α → Option β} {as : List α} :
    (as.mapM read).isSome = true ↔ ∀ a ∈ as, (read a).isSome = true := by
  induction as with
  | nil => simp
  | cons a as ih =>
    rw [List.mapM_cons, List.forall_mem_cons, ← ih]
    cases read a with
    | none => simp
    | some b => cases as.mapM read <;> simp

namespace Pointer

/-! ## Tildes -/

/-- A text in which a zero or a one follows every tilde. -/
def TildesEscape (cs : List Char) : Prop :=
  ∀ before after, cs = before ++ '~' :: after → after.head? = some '0' ∨ after.head? = some '1'

theorem tildesEscape_nil : TildesEscape [] := by
  intro before after h
  simp at h

theorem tildesEscape_cons {c : Char} {cs : List Char} :
    TildesEscape (c :: cs) ↔
      (c = '~' → cs.head? = some '0' ∨ cs.head? = some '1') ∧ TildesEscape cs := by
  constructor
  · intro h
    refine ⟨?_, fun before after heq => h (c :: before) after (congrArg (c :: ·) heq)⟩
    rintro rfl
    exact h [] cs rfl
  · rintro ⟨hfirst, hrest⟩ before after heq
    cases before with
    | nil =>
      obtain ⟨hc, rfl⟩ := List.cons.inj heq
      exact hfirst hc
    | cons d before => exact hrest before after (List.cons.inj heq).2

/-- A token is read from a text exactly if the tildes in it escape. -/
theorem isSome_unescape?_iff {cs : List Char} :
    (unescape? cs).isSome = true ↔ TildesEscape cs := by
  fun_induction unescape? cs with
  | case1 => exact iff_of_true rfl tildesEscape_nil
  | case2 cs ih => simp [tildesEscape_cons, ih]
  | case3 cs ih => simp [tildesEscape_cons, ih]
  | case4 cs hzero hone =>
    refine iff_of_false nofun fun h => ?_
    rcases (tildesEscape_cons.1 h).1 rfl with hhead | hhead
    · obtain ⟨rest, rfl⟩ := List.head?_eq_some_iff.1 hhead
      exact hzero rest rfl rfl
    · obtain ⟨rest, rfl⟩ := List.head?_eq_some_iff.1 hhead
      exact hone rest rfl rfl
  | case5 c cs hzero hone hc ih => simp [tildesEscape_cons, ih, hc]

/-- Cutting at slashes parts no tilde from what it escapes. -/
theorem tildesEscape_iff_pieces {cs : List Char} :
    TildesEscape cs ↔ ∀ piece ∈ Text.pieces '/' cs, TildesEscape piece := by
  induction cs with
  | nil => simp [Text.pieces]
  | cons c cs ih =>
    rw [tildesEscape_cons, ih]
    by_cases hslash : c = '/'
    · subst hslash
      simp [Text.pieces, tildesEscape_nil]
    · obtain ⟨first, rest, hpieces⟩ := List.exists_cons_of_ne_nil (Text.pieces_ne_nil '/' cs)
      -- The first piece begins as the text does, unless that begins with a slash.
      have hhead : ∀ d, d ≠ '/' → (cs.head? = some d ↔ first.head? = some d) := by
        intro d hd
        cases cs with
        | nil =>
          obtain ⟨rfl, -⟩ := List.cons.inj hpieces
          rfl
        | cons e cs =>
          unfold Text.pieces at hpieces
          split at hpieces
          · next he =>
            obtain ⟨rfl, -⟩ := List.cons.inj hpieces
            simp [he, Ne.symm hd]
          · split at hpieces
            all_goals
              obtain ⟨rfl, -⟩ := List.cons.inj hpieces
              rfl
      have hcons : Text.pieces '/' (c :: cs) = (c :: first) :: rest := by
        rw [Text.pieces, if_neg hslash, hpieces]
      rw [hcons, hpieces, List.forall_mem_cons, List.forall_mem_cons, tildesEscape_cons,
        hhead '0' (by decide), hhead '1' (by decide), and_assoc]

/-! ## Pointers -/

/-- A text that writes a pointer: it is empty or begins with a slash, and a zero or a one follows
every tilde. -/
structure IsText (text : String) : Prop where
  slash : text = "" ∨ text.toList.head? = some '/'
  tildes : TildesEscape text.toList

theorem decodeChars?_cons_of_ne {c : Char} {cs : List Char} (h : c ≠ '/') :
    decodeChars? (c :: cs) = none := by
  unfold decodeChars?
  split
  · next heq => cases heq
  · next heq => exact absurd (List.cons.inj heq).1 h
  · rfl

theorem isSome_decodeChars?_slash_iff {cs : List Char} :
    (decodeChars? ('/' :: cs)).isSome = true ↔ TildesEscape cs := by
  simp only [decodeChars?, isSome_mapM_iff, Option.isSome_map, isSome_unescape?_iff,
    ← tildesEscape_iff_pieces]

/-- **A pointer is read from a text** exactly if the text writes one. -/
theorem isSome_decode?_iff {text : String} : (decode? text).isSome = true ↔ IsText text := by
  unfold decode?
  cases hcs : text.toList with
  | nil =>
    have hempty : text = "" := by simpa using hcs
    exact iff_of_true rfl ⟨Or.inl hempty, hcs ▸ tildesEscape_nil⟩
  | cons c cs =>
    have hne : text ≠ "" := by
      rintro rfl
      cases hcs
    by_cases hslash : c = '/'
    · subst hslash
      have hcons : TildesEscape text.toList ↔ TildesEscape cs := by
        rw [hcs, tildesEscape_cons]
        simp
      rw [isSome_decodeChars?_slash_iff, ← hcons]
      exact ⟨fun h => ⟨Or.inr (congrArg List.head? hcs), h⟩, fun h => h.tildes⟩
    · rw [decodeChars?_cons_of_ne hslash]
      refine iff_of_false Bool.false_ne_true fun h => ?_
      rcases h.slash with hempty | hhead
      · exact hne hempty
      · rw [hcs] at hhead
        exact hslash (Option.some.inj hhead)

end Pointer

end WorkloadImages

/-!
# Cutting a text at a separator

A text is a list of characters. It is cut at the first occurrence of a separator, or at all of
them; joining the pieces with the separator gives the text back.

## Main definitions

* `cut?`: what stands before and after the first separator
* `pieces`: the stretches between separators
* `joined`: pieces with the separator between them

## Main results

* `joined_pieces`: cutting loses nothing
-/

namespace WorkloadImages.Text

/-- What stands before and after the first `sep`, if there is one. -/
def cut? (sep : Char) : List Char → Option (List Char × List Char)
  | [] => none
  | c :: cs =>
    if c = sep then some ([], cs)
    else (cut? sep cs).map fun (before, after) => (c :: before, after)

/-- The stretches of a text between occurrences of `sep`; a text without one is its only piece. -/
def pieces (sep : Char) : List Char → List (List Char)
  | [] => [[]]
  | c :: cs =>
    if c = sep then [] :: pieces sep cs
    else match pieces sep cs with
      | [] => [[c]]
      | p :: ps => (c :: p) :: ps

/-- The pieces with `sep` between them. -/
def joined (sep : Char) : List (List Char) → List Char
  | [] => []
  | [p] => p
  | p :: q :: ps => p ++ sep :: joined sep (q :: ps)

theorem pieces_ne_nil (sep : Char) (cs : List Char) : pieces sep cs ≠ [] := by
  cases cs with
  | nil => simp [pieces]
  | cons c cs =>
    unfold pieces
    split
    · simp
    · split <;> simp

theorem joined_cons_of_ne_nil (sep : Char) (p : List Char) {ps : List (List Char)}
    (h : ps ≠ []) : joined sep (p :: ps) = p ++ sep :: joined sep ps := by
  cases ps with
  | nil => exact absurd rfl h
  | cons q ps => rfl

theorem joined_pieces (sep : Char) (cs : List Char) : joined sep (pieces sep cs) = cs := by
  induction cs with
  | nil => rfl
  | cons c cs ih =>
    unfold pieces
    split
    · next h => rw [joined_cons_of_ne_nil sep [] (pieces_ne_nil sep cs), ih, h, List.nil_append]
    · split
      · next h => exact absurd h (pieces_ne_nil sep cs)
      · next p ps h =>
        rw [h] at ih
        cases ps with
        | nil => simpa [joined] using ih
        | cons q ps => simpa [joined] using ih

end WorkloadImages.Text

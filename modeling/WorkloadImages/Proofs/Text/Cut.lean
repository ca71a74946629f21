import WorkloadImages.Text.Split

/-!
# Cutting and joining

The converse of cutting a text at a separator: what has been put together around a separator is
cut there again, as long as the parts before it do not hold it.

## Main results

* `cut?_eq_some_iff`, `cut?_eq_none_iff`: a text is cut at its first separator
* `pieces_append`: a text is cut where two pieces were joined
* `takeWhile_append_sep`: the text before the first separator
-/

namespace WorkloadImages.Text

variable {sep : Char} {before after cs p : List Char}

theorem cut?_append (h : sep ∉ before) :
    cut? sep (before ++ sep :: after) = some (before, after) := by
  induction before with
  | nil => simp [cut?]
  | cons c before ih =>
    obtain ⟨hc, hbefore⟩ := List.ne_and_not_mem_of_not_mem_cons h
    rw [List.cons_append, cut?, if_neg (Ne.symm hc), ih hbefore]
    rfl

/-- A text is cut at its first separator, and nothing else is lost. -/
theorem cut?_eq_some_iff :
    cut? sep cs = some (before, after) ↔ sep ∉ before ∧ cs = before ++ sep :: after := by
  refine ⟨fun h => ?_, fun ⟨h, e⟩ => e ▸ cut?_append h⟩
  induction cs generalizing before with
  | nil => simp [cut?] at h
  | cons c cs ih =>
    unfold cut? at h
    split at h
    · next hc =>
      obtain ⟨rfl, rfl⟩ := Prod.mk.inj (Option.some.inj h)
      exact ⟨List.not_mem_nil, by rw [hc, List.nil_append]⟩
    · next hc =>
      obtain ⟨⟨front, back⟩, hcut, heq⟩ := Option.map_eq_some_iff.1 h
      obtain ⟨rfl, rfl⟩ := Prod.mk.inj heq
      obtain ⟨hfront, rfl⟩ := ih hcut
      exact ⟨List.not_mem_cons_of_ne_of_not_mem (Ne.symm hc) hfront, rfl⟩

theorem cut?_eq_none_iff : cut? sep cs = none ↔ sep ∉ cs := by
  refine ⟨fun h hmem => ?_, fun h => ?_⟩
  · obtain ⟨before, after, rfl, hbefore⟩ := List.eq_append_cons_of_mem hmem
    rw [cut?_append hbefore] at h
    exact Option.some_ne_none _ h
  · cases hcut : cut? sep cs with
    | none => rfl
    | some parts =>
      obtain ⟨-, rfl⟩ := cut?_eq_some_iff.1 hcut
      exact absurd (List.mem_append_right _ List.mem_cons_self) h

/-- Texts with a separator are the same if they are before and behind the first one. -/
theorem append_sep_inj {before' after' : List Char} (h : sep ∉ before) (h' : sep ∉ before') :
    before ++ sep :: after = before' ++ sep :: after' ↔ before = before' ∧ after = after' := by
  constructor
  · intro heq
    have hcut : cut? sep (before' ++ sep :: after') = some (before, after) := by
      rw [← heq, cut?_append h]
    rw [cut?_append h'] at hcut
    obtain ⟨rfl, rfl⟩ := Prod.mk.inj (Option.some.inj hcut)
    exact ⟨rfl, rfl⟩
  · rintro ⟨rfl, rfl⟩
    rfl

/-- A text that another one begins with is cut at the same place. -/
theorem prefix_cut {before' after' : List Char} (h : sep ∉ before) (h' : sep ∉ before')
    (hleads : before ++ sep :: after <+: before' ++ sep :: after') :
    before = before' ∧ after <+: after' := by
  obtain ⟨rest, hrest⟩ := hleads
  rw [List.append_assoc, List.cons_append] at hrest
  obtain ⟨rfl, rfl⟩ := (append_sep_inj h h').1 hrest
  exact ⟨rfl, List.prefix_append after rest⟩

theorem pieces_of_not_mem (h : sep ∉ cs) : pieces sep cs = [cs] := by
  induction cs with
  | nil => rfl
  | cons c cs ih =>
    obtain ⟨hc, hcs⟩ := List.ne_and_not_mem_of_not_mem_cons h
    rw [pieces, if_neg (Ne.symm hc), ih hcs]

theorem pieces_append (h : sep ∉ p) : pieces sep (p ++ sep :: cs) = p :: pieces sep cs := by
  induction p with
  | nil => simp [pieces]
  | cons c p ih =>
    obtain ⟨hc, hp⟩ := List.ne_and_not_mem_of_not_mem_cons h
    rw [List.cons_append, pieces, if_neg (Ne.symm hc), ih hp]

theorem mem_joined {ps : List (List Char)} {c : Char} (h : c ∈ joined sep ps) :
    c = sep ∨ ∃ p ∈ ps, c ∈ p := by
  induction ps with
  | nil => exact absurd h List.not_mem_nil
  | cons p ps ih =>
    cases ps with
    | nil => exact Or.inr ⟨p, List.mem_cons_self, h⟩
    | cons q ps =>
      rw [joined_cons_of_ne_nil sep p (by simp), List.mem_append, List.mem_cons] at h
      rcases h with h | h | h
      · exact Or.inr ⟨p, List.mem_cons_self, h⟩
      · exact Or.inl h
      · rcases ih h with h | ⟨r, hr, hc⟩
        · exact Or.inl h
        · exact Or.inr ⟨r, List.mem_cons_of_mem _ hr, hc⟩

/-- A character that a class leaves out does not occur in a text of the class. -/
theorem not_mem_of_all {class? : Char → Bool} {c : Char} (h : cs.all class? = true)
    (hc : class? c = false) : c ∉ cs := by
  intro hmem
  rw [List.all_eq_true.1 h c hmem] at hc
  exact Bool.noConfusion hc

/-- The text before the first separator. -/
theorem takeWhile_append_sep (h : sep ∉ before) :
    (before ++ sep :: after).takeWhile (· ≠ sep) = before := by
  rw [List.takeWhile_append_of_pos]
  · simp
  · intro c hc
    exact decide_eq_true fun e => h (e ▸ hc)

end WorkloadImages.Text

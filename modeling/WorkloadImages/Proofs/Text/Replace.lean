/-!
# Replacing every occurrence

Every occurrence of a target in a text is replaced, from the front. Occurrences do not overlap, and
what has been put in the place of one is not searched again.

## Main definitions

* `replaced`: a text with the occurrences of a target replaced

## Main results

* `replaced_append`, `replaced_cons`: the front of a text, with and without the target
* `replaced_singleton`: a target of one character is replaced by the character
-/

namespace WorkloadImages.Text

/-- A text without its first `skip` characters, with the occurrences of a target replaced. -/
def replacedFrom (target new : List Char) : Nat → List Char → List Char
  | _, [] => []
  -- The rest of an occurrence that has been replaced.
  | skip + 1, _ :: cs => replacedFrom target new skip cs
  | 0, c :: cs =>
    if target.isPrefixOf (c :: cs) then new ++ replacedFrom target new (target.length - 1) cs
    else c :: replacedFrom target new 0 cs

/-- A text with the occurrences of a target, which is not empty, replaced. -/
def replaced (target new cs : List Char) : List Char := replacedFrom target new 0 cs

variable {target new cs : List Char} {c d : Char}

theorem replacedFrom_eq (target new : List Char) (skip : Nat) (cs : List Char) :
    replacedFrom target new skip cs = replaced target new (cs.drop skip) := by
  induction cs generalizing skip with
  | nil =>
    rw [List.drop_nil]
    cases skip <;> rfl
  | cons c cs ih =>
    cases skip with
    | zero => rfl
    | succ skip => exact ih skip

/-- A text that begins with the target. -/
theorem replaced_append (d : Char) (target new cs : List Char) :
    replaced (d :: target) new (d :: target ++ cs) = new ++ replaced (d :: target) new cs := by
  have hprefix : (d :: target).isPrefixOf (d :: (target ++ cs)) = true :=
    List.isPrefixOf_iff_prefix.2 ⟨cs, rfl⟩
  rw [List.cons_append, replaced, replacedFrom, if_pos hprefix, replacedFrom_eq,
    List.length_cons, Nat.add_sub_cancel, List.drop_left]

/-- A text that does not begin with the target. -/
theorem replaced_cons (h : ¬ target <+: c :: cs) (new : List Char) :
    replaced target new (c :: cs) = c :: replaced target new cs := by
  rw [replaced, replacedFrom, if_neg (fun hprefix => h (List.isPrefixOf_iff_prefix.1 hprefix))]
  rfl

theorem replaced_cons_of_ne (h : c ≠ d) (target new cs : List Char) :
    replaced (d :: target) new (c :: cs) = c :: replaced (d :: target) new cs :=
  replaced_cons (fun hprefix => h (List.cons_prefix_cons.1 hprefix).1.symm) new

/-- A character is replaced wherever it stands. -/
theorem replaced_singleton (d : Char) (new cs : List Char) :
    replaced [d] new cs = cs.flatMap fun c => if c = d then new else [c] := by
  induction cs with
  | nil => rfl
  | cons c cs ih =>
    rw [List.flatMap_cons]
    split
    · next h =>
      subst h
      have happend := replaced_append c [] new cs
      rwa [ih] at happend
    · next h => rw [replaced_cons_of_ne h, ih, List.singleton_append]

end WorkloadImages.Text

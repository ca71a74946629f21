import Mathlib.Computability.RegularExpressions

/-!
# Patterns

Regular expressions over characters, with the operators that patterns are written with: classes of
characters, parts that may be left out, and repetitions with bounds. A pattern matches a text if it
matches all of it.

## Main definitions

* `Pattern.Matches`: the texts that a pattern matches
* `between`, `oneOf`: a range of characters, and one character of several
* `optional`, `oneOrMore`, `atMost`, `atLeast`: how often a part may stand

## Main results

* `matches_mul`, `matches_star`: the texts of a sequence and of a repetition
* `matches_star_oneOf`, `matches_atMost_oneOf`, `matches_atLeast_oneOf`: repeated characters
-/

namespace WorkloadImages.Text

/-- A regular expression over characters. -/
abbrev Pattern := RegularExpression Char

namespace Pattern

/-- A pattern matches the whole of a text. -/
def Matches (pattern : Pattern) (cs : List Char) : Prop := cs ∈ pattern.matches'

/-- The characters from one to another, as `a-z` in a class. -/
def between (first last : Char) : List Char :=
  ((List.range (last.toNat + 1)).map Char.ofNat).filter fun c => first ≤ c ∧ c ≤ last

/-- One of several characters: a class. -/
def oneOf (chars : List Char) : Pattern := (chars.map RegularExpression.char).sum

/-- A part or nothing: `p?`. -/
def optional (part : Pattern) : Pattern := part + 1

/-- One part or several: `p+`. -/
def oneOrMore (part : Pattern) : Pattern := part * part.star

/-- As many parts as are given or fewer: `p{0,n}`. -/
def atMost (n : Nat) (part : Pattern) : Pattern := optional part ^ n

/-- As many parts as are given or more: `p{n,}`. -/
def atLeast (n : Nat) (part : Pattern) : Pattern := part ^ n * part.star

variable {p q : Pattern} {chars cs : List Char} {c first last : Char} {n : Nat}

/-! ## The operators of the library -/

theorem matches_char : Matches (.char c) cs ↔ cs = [c] := Iff.rfl

theorem matches_add : Matches (p + q) cs ↔ p.Matches cs ∨ q.Matches cs := Iff.rfl

theorem matches_mul :
    Matches (p * q) cs ↔ ∃ front back, p.Matches front ∧ q.Matches back ∧ front ++ back = cs := by
  constructor
  · rintro ⟨front, hfront, back, hback, heq⟩
    exact ⟨front, back, hfront, hback, heq⟩
  · rintro ⟨front, back, hfront, hback, heq⟩
    exact ⟨front, hfront, back, hback, heq⟩

theorem matches_star :
    Matches p.star cs ↔ ∃ parts : List (List Char), parts.flatten = cs ∧
      ∀ part ∈ parts, p.Matches part := by
  constructor
  · rintro ⟨parts, rfl, hparts⟩
    exact ⟨parts, rfl, hparts⟩
  · rintro ⟨parts, rfl, hparts⟩
    exact ⟨parts, rfl, hparts⟩

theorem matches_pow_zero : Matches (p ^ 0) cs ↔ cs = [] := Iff.rfl

theorem matches_pow_succ :
    Matches (p ^ (n + 1)) cs ↔
      ∃ front back, p.Matches front ∧ Matches (p ^ n) back ∧ front ++ back = cs := by
  rw [← matches_mul, Matches, Matches, RegularExpression.matches'_mul,
    RegularExpression.matches'_pow, RegularExpression.matches'_pow, pow_succ']

theorem matches_optional : Matches (optional p) cs ↔ p.Matches cs ∨ cs = [] := Iff.rfl

/-! ## Characters -/

theorem mem_between : c ∈ between first last ↔ first ≤ c ∧ c ≤ last := by
  rw [between, List.mem_filter, decide_eq_true_eq]
  refine and_iff_right_of_imp fun hbounds => ?_
  refine List.mem_map.2 ⟨c.toNat, List.mem_range.2 ?_, Char.ofNat_toNat c⟩
  exact Nat.lt_succ_of_le (UInt32.le_iff_toNat_le.1 (Char.le_def.1 hbounds.2))

theorem matches_oneOf : Matches (oneOf chars) cs ↔ ∃ c ∈ chars, cs = [c] := by
  induction chars with
  | nil => exact iff_of_false (Language.notMem_zero cs) nofun
  | cons c chars ih =>
    have hsum : oneOf (c :: chars) = .char c + oneOf chars := by
      rw [oneOf, List.map_cons, List.sum_cons, oneOf]
    rw [hsum, matches_add, matches_char, ih, List.exists_mem_cons_iff]

theorem matches_star_oneOf : Matches (oneOf chars).star cs ↔ ∀ c ∈ cs, c ∈ chars := by
  rw [matches_star]
  constructor
  · rintro ⟨parts, rfl, hparts⟩ c hc
    obtain ⟨part, hpart, hc⟩ := List.mem_flatten.1 hc
    obtain ⟨d, hd, rfl⟩ := matches_oneOf.1 (hparts part hpart)
    rw [List.mem_singleton.1 hc]
    exact hd
  · intro hall
    refine ⟨cs.map fun c => [c], ?_, fun part hpart => ?_⟩
    · rw [← List.flatMap_def, List.flatMap_singleton']
    · obtain ⟨c, hc, rfl⟩ := List.mem_map.1 hpart
      exact matches_oneOf.2 ⟨c, hall c hc, rfl⟩

/-- One character before others of a class. -/
theorem matches_oneOf_mul :
    Matches (oneOf chars * p) cs ↔ ∃ c rest, c ∈ chars ∧ p.Matches rest ∧ c :: rest = cs := by
  rw [matches_mul]
  constructor
  · rintro ⟨front, rest, hfront, hrest, rfl⟩
    obtain ⟨c, hc, rfl⟩ := matches_oneOf.1 hfront
    exact ⟨c, rest, hc, hrest, rfl⟩
  · rintro ⟨c, rest, hc, hrest, rfl⟩
    exact ⟨[c], rest, matches_oneOf.2 ⟨c, hc, rfl⟩, hrest, rfl⟩

theorem matches_oneOrMore_oneOf :
    Matches (oneOrMore (oneOf chars)) cs ↔ cs ≠ [] ∧ ∀ c ∈ cs, c ∈ chars := by
  rw [oneOrMore, matches_oneOf_mul]
  constructor
  · rintro ⟨c, rest, hc, hrest, rfl⟩
    exact ⟨List.cons_ne_nil c rest, List.forall_mem_cons.2 ⟨hc, matches_star_oneOf.1 hrest⟩⟩
  · rintro ⟨hne, hall⟩
    obtain ⟨c, rest, rfl⟩ := List.exists_cons_of_ne_nil hne
    obtain ⟨hc, hrest⟩ := List.forall_mem_cons.1 hall
    exact ⟨c, rest, hc, matches_star_oneOf.2 hrest, rfl⟩

theorem matches_pow_oneOf :
    Matches (oneOf chars ^ n) cs ↔ cs.length = n ∧ ∀ c ∈ cs, c ∈ chars := by
  induction n generalizing cs with
  | zero =>
    rw [matches_pow_zero, List.length_eq_zero_iff]
    refine (and_iff_left_of_imp ?_).symm
    rintro rfl
    exact nofun
  | succ n ih =>
    rw [matches_pow_succ, ← matches_mul, matches_oneOf_mul]
    constructor
    · rintro ⟨c, rest, hc, hrest, rfl⟩
      obtain ⟨hlength, hrest⟩ := ih.1 hrest
      exact ⟨congrArg (· + 1) hlength, List.forall_mem_cons.2 ⟨hc, hrest⟩⟩
    · rintro ⟨hlength, hall⟩
      obtain ⟨c, rest, rfl⟩ := List.exists_cons_of_length_eq_add_one hlength
      obtain ⟨hc, hrest⟩ := List.forall_mem_cons.1 hall
      exact ⟨c, rest, hc, ih.2 ⟨Nat.succ.inj hlength, hrest⟩, rfl⟩

theorem matches_atMost_oneOf :
    Matches (atMost n (oneOf chars)) cs ↔ cs.length ≤ n ∧ ∀ c ∈ cs, c ∈ chars := by
  unfold atMost
  induction n generalizing cs with
  | zero =>
    rw [matches_pow_zero, Nat.le_zero, List.length_eq_zero_iff]
    refine (and_iff_left_of_imp ?_).symm
    rintro rfl
    exact nofun
  | succ n ih =>
    rw [matches_pow_succ]
    constructor
    · rintro ⟨front, rest, hfront, hrest, rfl⟩
      obtain ⟨hlength, hrest⟩ := ih.1 hrest
      rcases matches_optional.1 hfront with hfront | rfl
      · obtain ⟨c, hc, rfl⟩ := matches_oneOf.1 hfront
        exact ⟨Nat.succ_le_succ hlength, List.forall_mem_cons.2 ⟨hc, hrest⟩⟩
      · exact ⟨Nat.le_succ_of_le hlength, hrest⟩
    · rintro ⟨hlength, hall⟩
      cases cs with
      | nil => exact ⟨[], [], Or.inr rfl, ih.2 ⟨Nat.zero_le n, hall⟩, rfl⟩
      | cons c rest =>
        obtain ⟨hc, hrest⟩ := List.forall_mem_cons.1 hall
        exact ⟨[c], rest, Or.inl (matches_oneOf.2 ⟨c, hc, rfl⟩),
          ih.2 ⟨Nat.le_of_succ_le_succ hlength, hrest⟩, rfl⟩

theorem matches_atLeast_oneOf :
    Matches (atLeast n (oneOf chars)) cs ↔ n ≤ cs.length ∧ ∀ c ∈ cs, c ∈ chars := by
  rw [atLeast, matches_mul]
  constructor
  · rintro ⟨front, back, hfront, hback, rfl⟩
    obtain ⟨hlength, hfront⟩ := matches_pow_oneOf.1 hfront
    refine ⟨?_, List.forall_mem_append.2 ⟨hfront, matches_star_oneOf.1 hback⟩⟩
    rw [List.length_append, hlength]
    exact Nat.le_add_right n back.length
  · rintro ⟨hlength, hall⟩
    refine ⟨cs.take n, cs.drop n, matches_pow_oneOf.2 ⟨List.length_take_of_le hlength, ?_⟩,
      matches_star_oneOf.2 ?_, List.take_append_drop n cs⟩
    · exact fun c hc => hall c (List.mem_of_mem_take hc)
    · exact fun c hc => hall c (List.mem_of_mem_drop hc)

end Pattern

end WorkloadImages.Text

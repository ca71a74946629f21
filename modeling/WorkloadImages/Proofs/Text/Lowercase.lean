import WorkloadImages.Proofs.Text.Cut
import WorkloadImages.Text.Lowercase

/-!
# Lowercase ASCII

Among the ASCII characters only the capital letters have a lowercase form other than themselves.
Outside ASCII two letters have a lowercase form that begins in ASCII: the Kelvin sign becomes `k`,
and the form of `İ` begins with `i`. No character becomes a mark, so a text is cut at a mark in the
same places before and after it is brought into lowercase.

## Main definitions

* `kelvinSign`: the letter outside ASCII that becomes one within it
* `IsMark`: the ASCII characters that are no letters

## Main results

* `isLowercase_of_ascii`: an ASCII text without capital letters is in lowercase
* `lowercase_of_ascii`: the lowercase form of an ASCII text, character by character
* `ascii_of_lowercase`: where only the Kelvin sign stands against the converse
* `mem_lowercase_iff`, `cut?_lowercase`: marks stay where they are
-/

namespace WorkloadImages.Text

variable {c d mark : Char} {cs : List Char}

/-- The Kelvin sign, a letter of its own. -/
def kelvinSign : Char := '\u212A'

/-! ## Characters -/

/-- A letter is 32 code points behind its capital. -/
theorem toLower_cases (c : Char) :
    ((0x41 ≤ c.toNat ∧ c.toNat ≤ 0x5A) ∧ c.toLower.toNat = c.toNat + 32) ∨
      ((c.toNat < 0x41 ∨ 0x5A < c.toNat) ∧ c.toLower = c) := by
  unfold Char.toLower
  split
  · next hcapital =>
    obtain ⟨hfirst, hlast⟩ := hcapital
    rw [ge_iff_le, UInt32.le_iff_toNat_le] at hfirst
    rw [UInt32.le_iff_toNat_le] at hlast
    change 0x41 ≤ c.toNat at hfirst
    change c.toNat ≤ 0x5A at hlast
    refine Or.inl ⟨⟨hfirst, hlast⟩, ?_⟩
    change (c.val + 32).toNat = c.toNat + 32
    rw [UInt32.toNat_add]
    change (c.toNat + 32) % 2 ^ 32 = c.toNat + 32
    omega
  · next hcapital =>
    rw [ge_iff_le, UInt32.le_iff_toNat_le, UInt32.le_iff_toNat_le] at hcapital
    change ¬ (0x41 ≤ c.toNat ∧ c.toNat ≤ 0x5A) at hcapital
    refine Or.inr ⟨?_, rfl⟩
    omega

/-- The forms of a run stay outside ASCII: the shift leads neither below nor to the code points
that are no characters. -/
def CaseRun.StaysOutside (run : CaseRun) : Prop :=
  0x80 ≤ run.first ∧ 0x80 ≤ run.first + run.shift ∧
    (run.last + run.shift < 0xD800 ∨
      (0xDFFF < run.first + run.shift ∧ run.last + run.shift < 0x110000))

instance (run : CaseRun) : Decidable run.StaysOutside :=
  inferInstanceAs (Decidable (_ ∧ _ ∧ (_ ∨ (_ ∧ _))))

/-- A run holds the capital letters or the Kelvin sign, or it stays outside ASCII. -/
theorem cases_of_mem_caseRuns {run : CaseRun} (h : run ∈ caseRuns) :
    run = ⟨0x41, 0x5A, 1, 32⟩ ∨ run = ⟨0x212A, 0x212A, 1, -8383⟩ ∨ run.StaysOutside := by
  have hall : caseRuns.all (fun run => run = ⟨0x41, 0x5A, 1, 32⟩ ∨
      run = ⟨0x212A, 0x212A, 1, -8383⟩ ∨ run.StaysOutside) = true := by decide
  exact of_decide_eq_true (List.all_eq_true.1 hall run h)

theorem CaseRun.covers_iff {run : CaseRun} {n : Nat} :
    run.covers n = true ↔ (run.first ≤ n ∧ n ≤ run.last) ∧ (n - run.first) % run.step = 0 := by
  simp [CaseRun.covers]

theorem CaseRun.StaysOutside.not_ascii {run : CaseRun} {n : Nat} (h : run.StaysOutside)
    (hfirst : run.first ≤ n) (hlast : n ≤ run.last) :
    ¬ (Char.ofNat ((n : Int) + run.shift).toNat).toNat < 0x80 := by
  obtain ⟨-, hlow, hvalid⟩ := h
  have hvalid : ((n : Int) + run.shift).toNat.isValidChar := by
    rcases hvalid with hvalid | hvalid
    · exact Or.inl (by omega)
    · exact Or.inr ⟨by omega, by omega⟩
  rw [Char.ofNat, dif_pos hvalid]
  change ¬ ((n : Int) + run.shift).toNat < 0x80
  omega

theorem lowercaseChar_of_ascii (hascii : c.toNat < 0x80) : lowercaseChar c = [c.toLower] := by
  have hdot : c ≠ '\u0130' := by
    rintro rfl
    exact absurd hascii (by decide)
  rw [lowercaseChar, if_neg hdot]
  rcases toLower_cases c with ⟨hcapital, hlower⟩ | ⟨hcapital, hlower⟩
  · -- The capital letters are the first run, so that no other is looked at.
    have hcovers : CaseRun.covers ⟨0x41, 0x5A, 1, 32⟩ c.toNat = true :=
      CaseRun.covers_iff.2 ⟨hcapital, Nat.mod_one _⟩
    have hfind : caseRuns.find? (·.covers c.toNat) = some ⟨0x41, 0x5A, 1, 32⟩ :=
      List.find?_cons_of_pos hcovers
    have hshift : ((c.toNat : Int) + 32).toNat = c.toLower.toNat := by omega
    rw [hfind]
    dsimp only
    rw [hshift, Char.ofNat_toNat]
  · have hfind : caseRuns.find? (·.covers c.toNat) = none := by
      rw [List.find?_eq_none]
      intro run hrun hcovers
      obtain ⟨hbounds, -⟩ := CaseRun.covers_iff.1 hcovers
      rcases cases_of_mem_caseRuns hrun with rfl | rfl | hrun
      · dsimp only at hbounds
        omega
      · dsimp only at hbounds
        omega
      · exact absurd hrun.1 (by omega)
    rw [hfind, hlower]

theorem lowercaseChar_ne_nil (c : Char) : lowercaseChar c ≠ [] := by
  unfold lowercaseChar
  split
  · exact List.cons_ne_nil _ _
  · split <;> exact List.cons_ne_nil _ _

/-- The letters outside ASCII whose lowercase form has an ASCII character in it. -/
theorem cases_of_ascii_mem_lowercaseChar (hd : d ∈ lowercaseChar c) (hascii : d.toNat < 0x80) :
    (c.toNat < 0x80 ∧ d = c.toLower) ∨ (c = kelvinSign ∧ d = 'k') ∨ (c = '\u0130' ∧ d = 'i') := by
  by_cases hc : c.toNat < 0x80
  · rw [lowercaseChar_of_ascii hc] at hd
    exact Or.inl ⟨hc, List.mem_singleton.1 hd⟩
  right
  unfold lowercaseChar at hd
  split at hd
  · next hdot =>
    subst hdot
    rcases List.mem_cons.1 hd with rfl | hd
    · exact Or.inr ⟨rfl, rfl⟩
    · rw [List.mem_singleton.1 hd] at hascii
      exact absurd hascii (by decide)
  · split at hd
    · next run hfind =>
      have hrun := List.mem_of_find?_eq_some hfind
      have hcovers : run.covers c.toNat = true := by simpa using List.find?_some hfind
      obtain ⟨⟨hfirst, hlast⟩, -⟩ := CaseRun.covers_iff.1 hcovers
      obtain rfl := List.mem_singleton.1 hd
      rcases cases_of_mem_caseRuns hrun with rfl | rfl | houtside
      · exact absurd (Nat.lt_of_le_of_lt hlast (by decide)) hc
      · have hkelvin : c.toNat = 0x212A := Nat.le_antisymm hlast hfirst
        refine Or.inl ⟨?_, ?_⟩
        · rw [← Char.ofNat_toNat c, hkelvin, kelvinSign]
        · rw [hkelvin]
          rfl
      · exact absurd hascii (houtside.not_ascii hfirst hlast)
    · rw [List.mem_singleton.1 hd] at hascii
      exact absurd hascii hc

/-! ## Marks -/

/-- An ASCII character that is no letter. -/
def IsMark (c : Char) : Prop :=
  c.toNat < 0x41 ∨ (0x5A < c.toNat ∧ c.toNat < 0x61) ∨ (0x7A < c.toNat ∧ c.toNat < 0x80)

instance (c : Char) : Decidable (IsMark c) := inferInstanceAs (Decidable (_ ∨ (_ ∨ _)))

theorem IsMark.ascii (h : IsMark c) : c.toNat < 0x80 := by
  unfold IsMark at h
  omega

theorem isMark_at : IsMark '@' := by decide

theorem isMark_colon : IsMark ':' := by decide

theorem isMark_slash : IsMark '/' := by decide

theorem toLower_eq_mark_iff (hmark : IsMark mark) : c.toLower = mark ↔ c = mark := by
  unfold IsMark at hmark
  rcases toLower_cases c with ⟨hcapital, hlower⟩ | ⟨-, hlower⟩
  · refine iff_of_false ?_ ?_
    · rintro rfl
      omega
    · rintro rfl
      omega
  · rw [hlower]

theorem lowercaseChar_mark (hmark : IsMark mark) : lowercaseChar mark = [mark] := by
  rw [lowercaseChar_of_ascii hmark.ascii, (toLower_eq_mark_iff hmark).2 rfl]

/-- No character but the mark itself becomes a mark. -/
theorem mem_lowercaseChar_iff (hmark : IsMark mark) : mark ∈ lowercaseChar c ↔ c = mark := by
  constructor
  · intro hmem
    rcases cases_of_ascii_mem_lowercaseChar hmem hmark.ascii with ⟨-, hlower⟩ | ⟨-, rfl⟩ | ⟨-, rfl⟩
    · exact (toLower_eq_mark_iff hmark).1 hlower.symm
    · exact absurd hmark (by decide)
    · exact absurd hmark (by decide)
  · rintro rfl
    rw [lowercaseChar_mark hmark]
    exact List.mem_singleton_self c

/-! ## Texts -/

@[simp] theorem lowercase_nil : lowercase [] = [] := rfl

@[simp] theorem lowercase_cons (c : Char) (cs : List Char) :
    lowercase (c :: cs) = lowercaseChar c ++ lowercase cs := rfl

@[simp] theorem lowercase_append (front back : List Char) :
    lowercase (front ++ back) = lowercase front ++ lowercase back :=
  List.flatMap_append

theorem mem_lowercase_iff (hmark : IsMark mark) : mark ∈ lowercase cs ↔ mark ∈ cs := by
  rw [lowercase, List.mem_flatMap]
  constructor
  · rintro ⟨c, hc, hmem⟩
    rw [← (mem_lowercaseChar_iff hmark).1 hmem]
    exact hc
  · intro hmem
    exact ⟨mark, hmem, (mem_lowercaseChar_iff hmark).2 rfl⟩

theorem lowercase_mark_cons (hmark : IsMark mark) (cs : List Char) :
    lowercase (mark :: cs) = mark :: lowercase cs := by
  rw [lowercase_cons, lowercaseChar_mark hmark, List.singleton_append]

/-- **A text in ASCII** is brought into lowercase one character at a time. -/
theorem lowercase_of_ascii (h : ∀ c ∈ cs, c.toNat < 0x80) :
    lowercase cs = cs.map Char.toLower := by
  induction cs with
  | nil => rfl
  | cons c cs ih =>
    have hrest := ih fun d hd => h d (List.mem_cons_of_mem c hd)
    rw [lowercase_cons, lowercaseChar_of_ascii (h c List.mem_cons_self), hrest]
    rfl

/-- **A lowercase form in ASCII** is that of a text in ASCII, if there is no Kelvin sign. -/
theorem ascii_of_lowercase (h : ∀ d ∈ lowercase cs, d.toNat < 0x80) (hkelvin : kelvinSign ∉ cs) :
    ∀ c ∈ cs, c.toNat < 0x80 := by
  intro c hc
  have hform : ∀ d ∈ lowercaseChar c, d.toNat < 0x80 :=
    fun d hd => h d (List.mem_flatMap.2 ⟨c, hc, hd⟩)
  -- The first character of the form settles all letters but one, whose form has a second.
  obtain ⟨d, hd⟩ := List.exists_mem_of_ne_nil _ (lowercaseChar_ne_nil c)
  rcases cases_of_ascii_mem_lowercaseChar hd (hform d hd) with ⟨hascii, -⟩ | ⟨rfl, -⟩ | ⟨rfl, -⟩
  · exact hascii
  · exact absurd hc hkelvin
  · exact absurd (hform '\u0307' (by simp [lowercaseChar])) (by decide)

theorem isLowercase_of_ascii (h : ∀ c ∈ cs, c.toNat < 0x80 ∧ (c.toNat < 0x41 ∨ 0x5A < c.toNat)) :
    isLowercase cs = true := by
  refine List.all_eq_true.2 fun c hc => ?_
  obtain ⟨hascii, hcapital⟩ := h c hc
  rw [lowercaseChar_of_ascii hascii]
  rcases toLower_cases c with ⟨hletter, -⟩ | ⟨-, hlower⟩
  · omega
  · rw [hlower]
    exact beq_self_eq_true _

/-- **A text is cut at a mark in one place**, before and after it is brought into lowercase. -/
theorem cut?_lowercase (hmark : IsMark mark) (cs : List Char) :
    cut? mark (lowercase cs) =
      (cut? mark cs).map fun (before, after) => (lowercase before, lowercase after) := by
  cases hcut : cut? mark cs with
  | none =>
    rw [cut?_eq_none_iff] at hcut
    exact cut?_eq_none_iff.2 fun hmem => hcut ((mem_lowercase_iff hmark).1 hmem)
  | some parts =>
    obtain ⟨before, after⟩ := parts
    obtain ⟨hbefore, rfl⟩ := cut?_eq_some_iff.1 hcut
    have hlower : mark ∉ lowercase before := fun hmem => hbefore ((mem_lowercase_iff hmark).1 hmem)
    rw [lowercase_append, lowercase_mark_cons hmark, cut?_append hlower]
    rfl

end WorkloadImages.Text

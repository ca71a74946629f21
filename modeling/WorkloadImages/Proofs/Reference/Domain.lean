import WorkloadImages.Proofs.Text.Cut
import WorkloadImages.Reference.Domain

/-!
# References that name a domain

With its domain ensured a reference has a first segment that looks like a domain. Only the first
segment counts, so that nothing is put before a text that begins with such a segment.

## Main definitions

* `leadingSegment`: the text before the first slash

## Main results

* `exists_segment_ensureDomain`: the first segment of a reference with its domain ensured
* `ensureDomain_of_segment`: nothing is put before a segment that looks like a domain
* `ensureDomain_ensureDomain`: the default domain is put before a reference at most once
-/

namespace WorkloadImages.Reference

open Text (cut?)

/-- The text before the first slash, all of it when there is none. -/
def leadingSegment (cs : List Char) : List Char := cs.takeWhile (· ≠ '/')

variable {segment rest : List Char} {text : String}

theorem leadingSegment_append (h : '/' ∉ segment) :
    leadingSegment (segment ++ '/' :: rest) = segment :=
  Text.takeWhile_append_sep h

theorem leadingSegment_of_not_mem (h : '/' ∉ segment) : leadingSegment segment = segment := by
  have hall : ∀ c ∈ segment, decide (c ≠ '/') = true :=
    fun c hc => decide_eq_true fun e => h (e ▸ hc)
  have hwhole : (segment ++ []).takeWhile (· ≠ '/') = segment ++ [].takeWhile (· ≠ '/') :=
    List.takeWhile_append_of_pos hall
  rwa [List.append_nil, List.takeWhile_nil, List.append_nil] at hwhole

theorem namesDomain_append (h : '/' ∉ segment) :
    namesDomain (segment ++ '/' :: rest) = looksLikeDomain segment := by
  rw [namesDomain, Text.cut?_append h]

theorem ensureDomain_of_segment (h : '/' ∉ segment) (hlooks : looksLikeDomain segment = true)
    (htext : text.toList = segment ++ '/' :: rest) : ensureDomain text = text := by
  rw [ensureDomain, htext, namesDomain_append h, if_pos hlooks]

theorem toList_defaultDomain_append (text : String) :
    (defaultDomain ++ "/" ++ text).toList = defaultDomain.toList ++ '/' :: text.toList := by
  simp

theorem ensureDomain_eq_or (text : String) :
    ensureDomain text = text ∨ ensureDomain text = defaultDomain ++ "/" ++ text := by
  unfold ensureDomain
  split
  · exact Or.inl rfl
  · exact Or.inr rfl

/-- **The first segment of a reference with its domain ensured looks like a domain.** -/
theorem exists_segment_ensureDomain (text : String) :
    ∃ segment rest, '/' ∉ segment ∧ looksLikeDomain segment = true ∧
      (ensureDomain text).toList = segment ++ '/' :: rest := by
  unfold ensureDomain
  split
  · next hnames =>
    unfold namesDomain at hnames
    split at hnames
    · next segment rest hcut =>
      obtain ⟨hslash, htext⟩ := Text.cut?_eq_some_iff.1 hcut
      exact ⟨segment, rest, hslash, hnames, htext⟩
    · exact absurd hnames Bool.false_ne_true
  · exact ⟨defaultDomain.toList, text.toList, by decide, by decide,
      toList_defaultDomain_append text⟩

theorem ensureDomain_ensureDomain (text : String) :
    ensureDomain (ensureDomain text) = ensureDomain text := by
  obtain ⟨segment, rest, hslash, hlooks, htext⟩ := exists_segment_ensureDomain text
  exact ensureDomain_of_segment hslash hlooks htext

end WorkloadImages.Reference

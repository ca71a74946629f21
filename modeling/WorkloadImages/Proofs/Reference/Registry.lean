import WorkloadImages.Proofs.Reference.Host
import WorkloadImages.Proofs.Reference.Image
import WorkloadImages.Proofs.Text.Lowercase

/-!
# Registries

Whether a reference names a registry is told twice: by the look of its first segment, before the
default registry is filled in, and by the grammar. The two agree on all segments but those with a
period and an underscore, which look like a domain and are none.

## Main results

* `looksLikeDomain_iff_of_isComponent`: the components that look like a domain
* `registry_eq_leadingSegment_iff`: when the first segment of a reference is the registry
-/

namespace WorkloadImages

open Reference
open Text (not_mem_of_all)

variable {cs : List Char} {text pointer : String} {image : Image}

namespace Reference

theorem toNat_of_isComponentChar {c : Char} (h : isComponentChar c = true) :
    c.toNat < 0x80 ∧ (c.toNat < 0x41 ∨ 0x5A < c.toNat) := by
  simp only [isComponentChar, isLowerAlnum, Bool.or_eq_true, decide_eq_true_eq, isLower_iff,
    isDigit_iff] at h
  rcases h with (((h | h) | rfl) | rfl) | rfl
  · omega
  · omega
  all_goals decide

/-- A component looks like a domain if it holds a period or is `localhost`. -/
theorem looksLikeDomain_iff_of_isComponent (h : isComponent cs = true) :
    looksLikeDomain cs = true ↔ '.' ∈ cs ∨ cs = "localhost".toList := by
  -- A component holds neither a colon nor a capital letter: two of the four signs are left.
  have hcolon : ':' ∉ cs := not_mem_of_all (isComponent_all h) rfl
  have hlower : Text.isLowercase cs = true := Text.isLowercase_of_ascii fun c hc =>
    toNat_of_isComponentChar (List.all_eq_true.1 (isComponent_all h) c hc)
  have hcolon : cs.contains ':' = false := by simpa using hcolon
  rw [looksLikeDomain, hlower, hcolon, Bool.or_false, Bool.not_true, Bool.or_false,
    Bool.or_eq_true, List.contains_iff_mem, decide_eq_true_eq]

/-- A text that begins with a segment with a period and an underscore. The period makes it look
like a domain, and the underscore keeps it from being one. -/
def MistakesDomain (cs : List Char) : Prop :=
  '/' ∈ cs ∧ '.' ∈ leadingSegment cs ∧ '_' ∈ leadingSegment cs

instance (cs : List Char) : Decidable (MistakesDomain cs) :=
  inferInstanceAs (Decidable (_ ∧ _))

end Reference

namespace Image

/-- The first segment of an accepted reference with its domain ensured is the registry, unless it
holds an underscore: then there is no registry, and the segment begins the path. -/
theorem registry_cases (h : parseAt text pointer = .ok image) {segment rest : List Char}
    (hslash : '/' ∉ segment) (hensured : (ensureDomain text).toList = segment ++ '/' :: rest) :
    ('_' ∉ segment ∧ segment ≠ [] ∧ image.registry = String.ofList segment) ∨
      ('_' ∈ segment ∧ isComponent segment = true ∧ image.registry = "" ∧
        ∃ path, image.path.toList = segment ++ '/' :: path) := by
  obtain ⟨parts, hforms, -, htext, rfl⟩ := parseAt_eq_ok_iff.1 h
  obtain ⟨path, hname, -, -, hcases⟩ := hforms.exists_path_of_text hslash (htext.trans hensured)
  rcases hcases with ⟨hdomain, hregistry, -⟩ | ⟨hdomain, hcomponent, hregistry, hpath⟩
  · refine Or.inl ⟨not_mem_of_all (isDomain_all hdomain) rfl, ?_, congrArg String.ofList hregistry⟩
    rintro rfl
    exact absurd hdomain (by decide)
  · -- A component without an underscore would be the domain.
    have hscore : '_' ∈ segment := Decidable.by_contra fun hscore => by
      rw [(isDomain_iff_of_isComponent hcomponent).2 hscore] at hdomain
      cases hdomain
    refine Or.inr ⟨hscore, hcomponent, congrArg String.ofList hregistry, path, ?_⟩
    rw [← hname, ← hpath]
    exact String.toList_ofList

theorem registry_of_mistakesDomain (h : parseAt text pointer = .ok image)
    (hmistakes : MistakesDomain text.toList) :
    ensureDomain text = text ∧ image.registry = "" ∧
      ∃ path, image.path.toList = leadingSegment text.toList ++ '/' :: path := by
  obtain ⟨hmem, hperiod, hscore⟩ := hmistakes
  obtain ⟨first, rest, htext, hfirst⟩ := List.eq_append_cons_of_mem hmem
  rw [htext, leadingSegment_append hfirst] at hperiod hscore ⊢
  have hlooks : looksLikeDomain first = true := by simp [looksLikeDomain, hperiod]
  have hensured := ensureDomain_of_segment hfirst hlooks htext
  rcases registry_cases h hfirst ((congrArg String.toList hensured).trans htext) with
    ⟨hnot, -⟩ | ⟨-, -, hcase⟩
  · exact absurd hscore hnot
  · exact ⟨hensured, hcase⟩

theorem registry_of_not_mistakesDomain (h : parseAt text pointer = .ok image)
    (hmistakes : ¬ MistakesDomain text.toList) :
    image.registry ≠ "" ∧
      image.registry = String.ofList (leadingSegment (ensureDomain text).toList) := by
  obtain ⟨segment, rest, hslash, hlooks, hensured⟩ := exists_segment_ensureDomain text
  rw [hensured, leadingSegment_append hslash]
  rcases registry_cases h hslash hensured with ⟨-, hne, hregistry⟩ | ⟨hscore, hcomponent, -⟩
  · refine ⟨?_, hregistry⟩
    rw [hregistry]
    simpa using hne
  · -- a segment with an underscore stands in the text itself, and looks like a domain by a period
    exfalso
    rcases ensureDomain_eq_or text with htext | htext
    · rw [htext] at hensured
      refine hmistakes ⟨by simp [hensured], ?_⟩
      rw [hensured, leadingSegment_append hslash]
      rcases (looksLikeDomain_iff_of_isComponent hcomponent).1 hlooks with hperiod | rfl
      · exact ⟨hperiod, hscore⟩
      · exact absurd hscore (by decide)
    · -- the segment would be the default domain, which has no underscore
      rw [htext, toList_defaultDomain_append] at hensured
      have hsegment := congrArg leadingSegment hensured
      rw [leadingSegment_append hslash, leadingSegment_append (by decide)] at hsegment
      rw [← hsegment] at hscore
      exact absurd hscore (by decide)

/-- **The registry of an accepted reference** is its first segment with the domain ensured, unless
the reference begins with a segment that is mistaken for a domain. Then there is no registry, and
that segment begins the path. -/
theorem registry_eq_leadingSegment_iff (h : parse text = .ok image) :
    (image.registry ≠ "" ↔ ¬ MistakesDomain text.toList) ∧
      (image.registry = String.ofList (leadingSegment (ensureDomain text).toList) ↔
        ¬ MistakesDomain text.toList) ∧
      (MistakesDomain text.toList →
        image.registry = "" ∧
          ∃ path, image.path.toList = leadingSegment text.toList ++ '/' :: path) := by
  by_cases hmistakes : MistakesDomain text.toList
  · obtain ⟨hensured, hregistry, hpath⟩ := registry_of_mistakesDomain h hmistakes
    have hne : String.ofList (leadingSegment text.toList) ≠ "" := by
      simpa using List.ne_nil_of_mem hmistakes.2.1
    rw [hensured, hregistry]
    exact ⟨iff_of_false (fun hne => hne rfl) (fun hnot => hnot hmistakes),
      iff_of_false hne.symm (fun hnot => hnot hmistakes), fun _ => ⟨rfl, hpath⟩⟩
  · obtain ⟨hne, hregistry⟩ := registry_of_not_mistakesDomain h hmistakes
    exact ⟨iff_of_true hne hmistakes, iff_of_true hregistry hmistakes,
      fun h => absurd h hmistakes⟩

/-- A first segment with a port is the registry, one that is mistaken for a domain is not. -/
theorem registry_eq_leadingSegment_port :
    parse "a-b.c:5000/d_e.f/e:1" = .ok ⟨"a-b.c:5000", "e", "d_e.f/e", "1", "", ""⟩ ∧
      "a-b.c:5000" =
        String.ofList (leadingSegment (ensureDomain "a-b.c:5000/d_e.f/e:1").toList) := by
  have h : parse "a-b.c:5000/d_e.f/e:1" = .ok ⟨"a-b.c:5000", "e", "d_e.f/e", "1", "", ""⟩ := by
    rfl
  have hmistakes : ¬ MistakesDomain "a-b.c:5000/d_e.f/e:1".toList := by decide
  exact ⟨h, (registry_eq_leadingSegment_iff h).2.1.2 hmistakes⟩

/-- An accepted reference need not have a registry: `a_b.c` looks like a domain and is none. -/
theorem parse_without_registry :
    ∃ image, parse "a_b.c/d" = .ok image ∧ image.registry = "" ∧
      image.registry ≠ String.ofList (leadingSegment (ensureDomain "a_b.c/d").toList) :=
  ⟨⟨"", "d", "a_b.c/d", "latest", "", ""⟩, by rfl, rfl, by decide⟩

end Image

end WorkloadImages

import WorkloadImages.Proofs.Reference.Uppercase
import WorkloadImages.Proofs.Text.Pattern

/-!
# The patterns of references

The language of references as it is written in regular expressions. A reference is matched twice:
the whole text by a pattern with groups for the name, the tag and the digest, and then the name by
one with groups for the domain and the path. Each pattern matches what the production of its name
derives, so that the functions that recognise and split references do what the two matches do.

The first pattern captures in one way only, for the marks between the groups are told apart. In a
name the group of the domain is an optional one that is tried first: it is left out only if the name
is not matched with it.

## Main definitions

* `Patterns.reference`, `Patterns.name`: the patterns of the two matches
* `Patterns.tag`, `Patterns.digest`, `Patterns.domain`, `Patterns.path`: their groups
* `MatchedWithDomain`: the names in which the group of the domain is not left out

## Main results

* `matches_reference`: the pattern of references matches the language
* `ofText?_eq_some_iff_matches`: what the first match captures
* `splitName?_eq_some_iff_matches`: what the second match captures
* `isSome_splitName?_iff_matches`: the second match never fails
* `parse_eq_invalidFormat_iff`, `parse_eq_containsUppercase_iff`: which texts are refused for not
  being matched
-/

namespace WorkloadImages.Reference

open WorkloadImages.Reference.Language
open Text (lowercase)
open Text.Pattern

/-! ## Patterns -/

namespace Patterns

open Text (Pattern)

/-- The class `[a-zA-Z0-9]`. -/
def alnum : List Char := between 'a' 'z' ++ between 'A' 'Z' ++ between '0' '9'

/-- A run of a component: `[a-z0-9]+`. -/
def alphaNumeric : Pattern := oneOrMore (oneOf (between 'a' 'z' ++ between '0' '9'))

/-- What stands between two runs: `(?:[._]|__|[-]*)`. -/
def separator : Pattern :=
  oneOf ['.', '_'] + .char '_' * .char '_' + (oneOf ['-']).star

/-- A label of a host: `(?:[a-zA-Z0-9]|[a-zA-Z0-9][a-zA-Z0-9-]*[a-zA-Z0-9])`. -/
def domainComponent : Pattern :=
  oneOf alnum + oneOf alnum * ((oneOf (alnum ++ ['-'])).star * oneOf alnum)

/-- A tag: `[A-Za-z0-9_][A-Za-z0-9_.-]{0,127}`. -/
def tag : Pattern := oneOf (alnum ++ ['_']) * atMost 127 (oneOf (alnum ++ ['_', '.', '-']))

/-- A word of the name of an algorithm: `[A-Za-z][A-Za-z0-9]*`. -/
def word : Pattern := oneOf (between 'A' 'Z' ++ between 'a' 'z') * (oneOf alnum).star

/-- A digest: `word(?:[-_+.]word)*:[0-9a-fA-F]{32,}`. -/
def digest : Pattern :=
  word * (oneOf ['-', '_', '+', '.'] * word).star *
    (.char ':' * atLeast 32 (oneOf (between '0' '9' ++ between 'a' 'f' ++ between 'A' 'F')))

/-- A component of a path: `run(?:separator run)*`. -/
def component : Pattern := alphaNumeric * (separator * alphaNumeric).star

/-- A path: `component(?:/component)*`. -/
def path : Pattern := component * (.char '/' * component).star

/-- A domain: `label(?:\.label)*(?::[0-9]+)?`. -/
def domain : Pattern :=
  domainComponent * (.char '.' * domainComponent).star *
    optional (.char ':' * oneOrMore (oneOf (between '0' '9')))

/-- A name, with groups for its domain and its path: `(?:(domain)/)?(path)`. -/
def name : Pattern := optional (domain * .char '/') * path

/-- A reference, with groups for its parts: `(name)(?::(tag))?(?:@(digest))?`. -/
def reference : Pattern :=
  name * optional (.char ':' * tag) * optional (.char '@' * digest)

/-- The digits of a digest by a known algorithm: `[a-f0-9]+`. -/
def lowerHex : Pattern := oneOrMore (oneOf (between 'a' 'f' ++ between '0' '9'))

end Patterns

variable {cs name domain path : List Char} {c : Char} {text : String}

/-! ## Classes -/

theorem mem_alnum : c ∈ Patterns.alnum ↔ Alnum c := by
  rw [Patterns.alnum, List.mem_append, List.mem_append, mem_between, mem_between, mem_between]
  exact Iff.rfl

theorem mem_lowerAlnum : c ∈ between 'a' 'z' ++ between '0' '9' ↔ LowerAlnum c := by
  rw [List.mem_append, mem_between, mem_between]
  exact Iff.rfl

theorem mem_letters : c ∈ between 'A' 'Z' ++ between 'a' 'z' ↔ Letter c := by
  rw [List.mem_append, mem_between, mem_between, or_comm]
  exact Iff.rfl

theorem mem_lowerHex : c ∈ between 'a' 'f' ++ between '0' '9' ↔ LowerHex c := by
  rw [List.mem_append, mem_between, mem_between, or_comm]
  exact Iff.rfl

theorem mem_hex : c ∈ between '0' '9' ++ between 'a' 'f' ++ between 'A' 'F' ↔ Hex c := by
  rw [List.mem_append, List.mem_append, mem_between, mem_between, mem_between]
  exact Iff.rfl

/-! ## Repetition -/

section Repetition

variable {p q : Text.Pattern} {mark : Char}
  {Separator Separator' Part Part' : List Char → Prop}

theorem Language.Separated.imp (hseparator : ∀ cs, Separator cs → Separator' cs)
    (hpart : ∀ cs, Part cs → Part' cs) (h : Separated Separator Part cs) :
    Separated Separator' Part' cs := by
  induction h with
  | one h => exact .one (hpart _ h)
  | cons h hmark _ ih => exact .cons (hpart _ h) (hseparator _ hmark) ih

theorem separated_congr (hseparator : ∀ cs, Separator cs ↔ Separator' cs)
    (hpart : ∀ cs, Part cs ↔ Part' cs) :
    Separated Separator Part cs ↔ Separated Separator' Part' cs :=
  ⟨.imp (fun cs => (hseparator cs).1) fun cs => (hpart cs).1,
    .imp (fun cs => (hseparator cs).2) fun cs => (hpart cs).2⟩

/-- A part with others behind it, each of them behind a separator. -/
theorem separated_flatten {first : List Char} {parts : List (List Char)} (hfirst : p.Matches first)
    (hparts : ∀ part ∈ parts, Matches (q * p) part) :
    Separated q.Matches p.Matches (first ++ parts.flatten) := by
  induction parts generalizing first with
  | nil =>
    rw [List.flatten_nil, List.append_nil]
    exact .one hfirst
  | cons part parts ih =>
    obtain ⟨hpart, hrest⟩ := List.forall_mem_cons.1 hparts
    obtain ⟨separator, second, hseparator, hsecond, rfl⟩ := matches_mul.1 hpart
    have hall := Separated.cons hfirst hseparator (ih hsecond hrest)
    simpa using hall

/-- **Parts with a separator between any two** are written as a part, and any number of parts behind
a separator each. -/
theorem matches_separated :
    Matches (p * (q * p).star) cs ↔ Separated q.Matches p.Matches cs := by
  constructor
  · intro h
    obtain ⟨first, rest, hfirst, hrest, rfl⟩ := matches_mul.1 h
    obtain ⟨parts, rfl, hparts⟩ := matches_star.1 hrest
    exact separated_flatten hfirst hparts
  · intro h
    induction h with
    | @one part hpart =>
      exact matches_mul.2 ⟨part, [], hpart, matches_star.2 ⟨[], rfl, nofun⟩, List.append_nil part⟩
    | @cons part separator rest hpart hseparator _ ih =>
      obtain ⟨second, tail, hsecond, htail, rfl⟩ := matches_mul.1 ih
      obtain ⟨parts, rfl, hparts⟩ := matches_star.1 htail
      have hbehind : Matches (q * p) (separator ++ second) :=
        matches_mul.2 ⟨separator, second, hseparator, hsecond, rfl⟩
      refine matches_mul.2 ⟨part, (separator ++ second) ++ parts.flatten, hpart,
        matches_star.2 ⟨(separator ++ second) :: parts, rfl, ?_⟩, ?_⟩
      · exact List.forall_mem_cons.2 ⟨hbehind, hparts⟩
      · rw [List.append_assoc, List.append_assoc]

theorem matches_char_mul :
    Matches (.char c * p) cs ↔ ∃ rest, p.Matches rest ∧ c :: rest = cs := by
  rw [matches_mul]
  constructor
  · rintro ⟨front, rest, rfl, hrest, rfl⟩
    exact ⟨rest, hrest, rfl⟩
  · rintro ⟨rest, hrest, rfl⟩
    exact ⟨[c], rest, rfl, hrest, rfl⟩

/-- A part behind a mark, or neither. -/
theorem matches_mul_optional :
    Matches (p * optional (.char mark * q)) cs ↔
      ∃ front back, p.Matches front ∧ (∀ part ∈ back, q.Matches part) ∧
        front ++ marked mark back = cs := by
  rw [matches_mul]
  constructor
  · rintro ⟨front, rest, hfront, hrest, rfl⟩
    rcases matches_optional.1 hrest with hrest | rfl
    · obtain ⟨back, hback, rfl⟩ := matches_char_mul.1 hrest
      exact ⟨front, some back, hfront, fun part hpart => Option.some.inj hpart ▸ hback, rfl⟩
    · exact ⟨front, none, hfront, nofun, rfl⟩
  · rintro ⟨front, back, hfront, hback, rfl⟩
    refine ⟨front, marked mark back, hfront, matches_optional.2 ?_, rfl⟩
    cases back with
    | none => exact Or.inr rfl
    | some part => exact Or.inl (matches_char_mul.2 ⟨part, hback part rfl, rfl⟩)

end Repetition

/-! ## Paths -/

theorem matches_alphaNumeric : Patterns.alphaNumeric.Matches cs ↔ Run LowerAlnum cs := by
  rw [Patterns.alphaNumeric, matches_oneOrMore_oneOf, Run]
  exact and_congr_right fun _ => forall₂_congr fun _ _ => mem_lowerAlnum

/-- The pattern of separators also matches nothing. -/
theorem matches_separator :
    Patterns.separator.Matches cs ↔ cs = [] ∨ ComponentSeparator cs := by
  rw [Patterns.separator, matches_add, matches_add, matches_star_oneOf, matches_char_mul]
  constructor
  · rintro ((hclass | ⟨rest, rfl, rfl⟩) | hhyphens)
    · obtain ⟨c, hc, rfl⟩ := matches_oneOf.1 hclass
      simp only [List.mem_cons, List.not_mem_nil, or_false] at hc
      rcases hc with rfl | rfl
      · exact Or.inr .period
      · exact Or.inr .underscore
    · exact Or.inr .underscores
    · -- Any number of hyphens, of which nothing is left when there are none.
      have hreplicate := List.eq_replicate_of_mem fun c hc => List.mem_singleton.1 (hhyphens c hc)
      cases hlength : cs.length with
      | zero => exact Or.inl (List.length_eq_zero_iff.1 hlength)
      | succ n =>
        rw [hreplicate, hlength]
        exact Or.inr (.hyphens n)
  · rintro (rfl | hseparator)
    · exact Or.inr nofun
    · cases hseparator with
      | period => exact Or.inl (Or.inl (matches_oneOf.2 ⟨'.', by decide, rfl⟩))
      | underscore => exact Or.inl (Or.inl (matches_oneOf.2 ⟨'_', by decide, rfl⟩))
      | underscores => exact Or.inl (Or.inr ⟨['_'], rfl, rfl⟩)
      | hyphens n => exact Or.inr fun c hc => List.mem_singleton.2 (List.eq_of_mem_replicate hc)

/-- A run before a component only makes its first run longer. -/
theorem component_run_append {run rest : List Char} (hrun : Run LowerAlnum run)
    (h : Component rest) : Component (run ++ rest) := by
  have hlonger {part : List Char} (hpart : Run LowerAlnum part) : Run LowerAlnum (run ++ part) :=
    ⟨List.append_ne_nil_of_left_ne_nil hrun.1 part, List.forall_mem_append.2 ⟨hrun.2, hpart.2⟩⟩
  cases h with
  | one hpart => exact .one (hlonger hpart)
  | cons hpart hseparator hrest =>
    rw [← List.append_assoc, ← List.append_assoc]
    exact .cons (hlonger hpart) hseparator hrest

/-- **A component** is matched as it is derived: where nothing separates two runs they are one. -/
theorem matches_component : Patterns.component.Matches cs ↔ Component cs := by
  rw [Patterns.component, matches_separated,
    separated_congr (fun _ => matches_separator) fun _ => matches_alphaNumeric]
  constructor
  · intro h
    induction h with
    | one hrun => exact .one hrun
    | cons hrun hseparator _ ih =>
      rcases hseparator with rfl | hseparator
      · rw [List.append_nil]
        exact component_run_append hrun ih
      · exact .cons hrun hseparator ih
  · exact .imp (fun _ => Or.inr) fun _ => id

theorem matches_path : Patterns.path.Matches cs ↔ Path cs := by
  rw [Patterns.path, matches_separated]
  exact separated_congr (fun _ => matches_char) fun _ => matches_component

/-! ## Names -/

theorem matches_domainComponent : Patterns.domainComponent.Matches cs ↔ Label cs := by
  rw [Patterns.domainComponent, matches_add, matches_oneOf_mul]
  constructor
  · rintro (hone | ⟨first, rest, hfirst, hrest, rfl⟩)
    · obtain ⟨c, hc, rfl⟩ := matches_oneOf.1 hone
      exact .one (mem_alnum.1 hc)
    · obtain ⟨inner, back, hinner, hback, rfl⟩ := matches_mul.1 hrest
      obtain ⟨last, hlast, rfl⟩ := matches_oneOf.1 hback
      refine .ends (mem_alnum.1 hfirst) (fun c hc => ?_) (mem_alnum.1 hlast)
      have hmem := matches_star_oneOf.1 hinner c hc
      rwa [List.mem_append, mem_alnum, List.mem_singleton] at hmem
  · intro h
    cases h with
    | @one c hc => exact Or.inl (matches_oneOf.2 ⟨c, mem_alnum.2 hc, rfl⟩)
    | @ends first inner last hfirst hinner hlast =>
      refine Or.inr ⟨first, inner ++ [last], mem_alnum.2 hfirst, matches_mul.2 ?_, rfl⟩
      refine ⟨inner, [last], matches_star_oneOf.2 fun c hc => ?_,
        matches_oneOf.2 ⟨last, mem_alnum.2 hlast, rfl⟩, rfl⟩
      rw [List.mem_append, mem_alnum, List.mem_singleton]
      exact hinner c hc

theorem matches_port :
    Matches (oneOrMore (oneOf (between '0' '9'))) cs ↔ Run Digit cs := by
  rw [matches_oneOrMore_oneOf, Run]
  exact and_congr_right fun _ => forall₂_congr fun _ _ => mem_between

theorem matches_domain : Patterns.domain.Matches cs ↔ Domain cs := by
  have hhost {host : List Char} :
      Matches (Patterns.domainComponent * (.char '.' * Patterns.domainComponent).star) host ↔
        Host host := by
    rw [matches_separated]
    exact separated_congr (fun _ => matches_char) fun _ => matches_domainComponent
  rw [Patterns.domain, matches_mul_optional]
  constructor
  · rintro ⟨host, port, hmatch, hport, rfl⟩
    cases port with
    | none =>
      rw [marked_none, List.append_nil]
      exact .host (hhost.1 hmatch)
    | some port => exact .port (hhost.1 hmatch) (matches_port.1 (hport port rfl))
  · intro h
    cases h with
    | host hderived => exact ⟨cs, none, hhost.2 hderived, nofun, List.append_nil cs⟩
    | @port host port hderived hport =>
      exact ⟨host, some port, hhost.2 hderived,
        fun part hpart => Option.some.inj hpart ▸ matches_port.2 hport, rfl⟩

/-- A name that the pattern matches with the group of the domain. -/
def MatchedWithDomain (name : List Char) : Prop :=
  ∃ domain path, Patterns.domain.Matches domain ∧ Patterns.path.Matches path ∧
    domain ++ '/' :: path = name

/-- A name is matched with the group of the domain or without it. -/
theorem matches_name_iff :
    Patterns.name.Matches cs ↔ MatchedWithDomain cs ∨ Patterns.path.Matches cs := by
  rw [Patterns.name, matches_mul]
  constructor
  · rintro ⟨front, path, hfront, hpath, rfl⟩
    rcases matches_optional.1 hfront with hfront | rfl
    · obtain ⟨domain, slash, hdomain, rfl, rfl⟩ := matches_mul.1 hfront
      exact Or.inl ⟨domain, path, hdomain, hpath, by rw [List.append_assoc, List.singleton_append]⟩
    · exact Or.inr hpath
  · rintro (⟨domain, path, hdomain, hpath, rfl⟩ | hpath)
    · refine ⟨domain ++ ['/'], path, matches_optional.2 (Or.inl ?_), hpath, ?_⟩
      · exact matches_mul.2 ⟨domain, ['/'], hdomain, rfl, rfl⟩
      · rw [List.append_assoc, List.singleton_append]
    · exact ⟨[], cs, matches_optional.2 (Or.inr rfl), hpath, rfl⟩

theorem matches_name : Patterns.name.Matches cs ↔ Name cs := by
  rw [matches_name_iff]
  constructor
  · rintro (⟨domain, path, hdomain, hpath, rfl⟩ | hpath)
    · exact .domain (matches_domain.1 hdomain) (matches_path.1 hpath)
    · exact .path (matches_path.1 hpath)
  · intro h
    cases h with
    | path hpath => exact Or.inr (matches_path.2 hpath)
    | @domain domain path hdomain hpath =>
      exact Or.inl ⟨domain, path, matches_domain.2 hdomain, matches_path.2 hpath, rfl⟩

/-! ## Tags and digests -/

theorem matches_tag : Patterns.tag.Matches cs ↔ Tag cs := by
  have hfirst {c : Char} : c ∈ Patterns.alnum ++ ['_'] ↔ Alnum c ∨ c = '_' := by
    rw [List.mem_append, mem_alnum, List.mem_singleton]
  have hrest {c : Char} : c ∈ Patterns.alnum ++ ['_', '.', '-'] ↔
      Alnum c ∨ c = '_' ∨ c = '.' ∨ c = '-' := by
    simp only [List.mem_append, mem_alnum, List.mem_cons, List.not_mem_nil, or_false]
  rw [Patterns.tag, matches_oneOf_mul]
  constructor
  · rintro ⟨first, rest, hclass, hmatch, rfl⟩
    obtain ⟨hlength, hclasses⟩ := matches_atMost_oneOf.1 hmatch
    exact .mk (hfirst.1 hclass) hlength fun c hc => hrest.1 (hclasses c hc)
  · intro h
    cases h with
    | @mk first rest hclass hlength hclasses =>
      exact ⟨first, rest, hfirst.2 hclass,
        matches_atMost_oneOf.2 ⟨hlength, fun c hc => hrest.2 (hclasses c hc)⟩, rfl⟩

theorem matches_word : Patterns.word.Matches cs ↔ Word cs := by
  rw [Patterns.word, matches_oneOf_mul]
  constructor
  · rintro ⟨first, rest, hfirst, hrest, rfl⟩
    exact .mk (mem_letters.1 hfirst) fun c hc => mem_alnum.1 (matches_star_oneOf.1 hrest c hc)
  · intro h
    cases h with
    | @mk first rest hfirst hrest =>
      exact ⟨first, rest, mem_letters.2 hfirst,
        matches_star_oneOf.2 fun c hc => mem_alnum.2 (hrest c hc), rfl⟩

theorem matches_digest : Patterns.digest.Matches cs ↔ Digest cs := by
  have hmark {cs : List Char} : Matches (oneOf ['-', '_', '+', '.']) cs ↔
      cs ∈ [['-'], ['_'], ['+'], ['.']] := by
    rw [matches_oneOf]
    simp
  have halgorithm {cs : List Char} :
      Matches (Patterns.word * (oneOf ['-', '_', '+', '.'] * Patterns.word).star) cs ↔
        Algorithm cs := by
    rw [matches_separated]
    exact separated_congr (fun _ => hmark) fun _ => matches_word
  rw [Patterns.digest, matches_mul]
  constructor
  · rintro ⟨algorithm, rest, hmatch, hrest, rfl⟩
    obtain ⟨hex, hhex, rfl⟩ := matches_char_mul.1 hrest
    obtain ⟨hlength, hclasses⟩ := matches_atLeast_oneOf.1 hhex
    exact .mk (halgorithm.1 hmatch) hlength fun c hc => mem_hex.1 (hclasses c hc)
  · intro h
    cases h with
    | @mk algorithm hex hderived hlength hclasses =>
      refine ⟨algorithm, ':' :: hex, halgorithm.2 hderived, matches_char_mul.2 ⟨hex, ?_, rfl⟩, rfl⟩
      exact matches_atLeast_oneOf.2 ⟨hlength, fun c hc => mem_hex.2 (hclasses c hc)⟩

/-- The digits of a digest are matched again in lowercase. They are not empty there, for their
number has been checked. -/
theorem all_isLowerHexDigit_iff_matches (hne : cs ≠ []) :
    cs.all isLowerHexDigit = true ↔ Patterns.lowerHex.Matches cs := by
  rw [Patterns.lowerHex, matches_oneOrMore_oneOf, and_iff_right hne,
    all_iff fun _ => isLowerHexDigit_iff]
  exact forall₂_congr fun _ _ => mem_lowerHex.symm

/-! ## References -/

/-- **The pattern of references** matches the texts that are spelled by a name, a tag and a
digest. -/
theorem matches_reference : Patterns.reference.Matches cs ↔ InLanguage cs := by
  rw [Patterns.reference, matches_mul_optional]
  constructor
  · rintro ⟨named, digest, hnamed, hdigest, rfl⟩
    obtain ⟨name, tag, hname, htag, rfl⟩ := matches_mul_optional.1 hnamed
    refine ⟨name, tag, digest, .mk (matches_name.1 hname) ?_ ?_⟩
    · exact fun part hpart => matches_tag.1 (htag part hpart)
    · exact fun part hpart => matches_digest.1 (hdigest part hpart)
  · rintro ⟨name, tag, digest, hname, htag, hdigest⟩
    refine ⟨name ++ marked ':' tag, digest, matches_mul_optional.2 ?_, ?_, rfl⟩
    · exact ⟨name, tag, matches_name.2 hname, fun part hpart => matches_tag.2 (htag part hpart),
        rfl⟩
    · exact fun part hpart => matches_digest.2 (hdigest part hpart)

/-- **A text is recognised** exactly if the pattern of references matches it. -/
theorem isSome_ofText?_iff_matches :
    (Parts.ofText? cs).isSome = true ↔ Patterns.reference.Matches cs := by
  rw [isSome_ofText?_iff, matches_reference]

/-- **What the first match captures.** The name, the tag and the digest of a text are matched by the
patterns of their groups, with the marks of the pattern between them; and no others are. -/
theorem ofText?_eq_some_iff_matches {parts : Parts} :
    Parts.ofText? cs = some parts ↔
      Patterns.name.Matches parts.name ∧ (∀ part ∈ parts.tag, Patterns.tag.Matches part) ∧
        (∀ part ∈ parts.digest, Patterns.digest.Matches part) ∧
        parts.name ++ marked ':' parts.tag ++ marked '@' parts.digest = cs := by
  rw [Parts.ofText?_eq_some_iff, matches_name, ← isName_iff]
  constructor
  · rintro ⟨hforms, htext⟩
    refine ⟨hforms.name, fun part hpart => ?_, fun part hpart => ?_, htext⟩
    · exact matches_tag.2 (isTag_iff.1 (hforms.tag part hpart))
    · exact matches_digest.2 (isDigestText_iff.1 (hforms.digest part hpart))
  · rintro ⟨hname, htag, hdigest, htext⟩
    refine ⟨⟨hname, fun part hpart => ?_, fun part hpart => ?_⟩, htext⟩
    · exact isTag_iff.2 (matches_tag.1 (htag part hpart))
    · exact isDigestText_iff.2 (matches_digest.1 (hdigest part hpart))

theorem isPath_iff_matches : isPath cs = true ↔ Patterns.path.Matches cs :=
  isPath_iff.trans matches_path.symm

theorem isDomain_iff_matches : isDomain cs = true ↔ Patterns.domain.Matches cs :=
  isDomain_iff.trans matches_domain.symm

theorem slash_not_mem_of_matches (h : Patterns.domain.Matches domain) : '/' ∉ domain :=
  Text.not_mem_of_all (isDomain_all (isDomain_iff_matches.2 h)) rfl

/-- A name is split behind a domain, or it has none and is the path. -/
theorem matches_of_splitName? (h : splitName? name = some (domain, path)) :
    (Patterns.domain.Matches domain ∧ Patterns.path.Matches path ∧ domain ++ '/' :: path = name) ∨
      (domain = [] ∧ path = name ∧ Patterns.path.Matches name ∧ ¬ MatchedWithDomain name) := by
  rcases exists_of_splitName? h with
    ⟨hslash, hcomponent, hsplit⟩ | ⟨first, rest, hfirst, rfl, hrest, hcases⟩
  · obtain ⟨rfl, rfl⟩ := Prod.mk.inj hsplit
    refine Or.inr ⟨rfl, rfl, isPath_iff_matches.1 ?_, ?_⟩
    · rw [isPath_of_not_mem hslash, hcomponent]
    · rintro ⟨front, back, -, -, rfl⟩
      exact hslash (List.mem_append_right front List.mem_cons_self)
  · rcases hcases with ⟨hdomain, hsplit⟩ | ⟨hdomain, hcomponent, hsplit⟩
    · obtain ⟨rfl, rfl⟩ := Prod.mk.inj hsplit
      exact Or.inl ⟨isDomain_iff_matches.1 hdomain, isPath_iff_matches.1 hrest, rfl⟩
    · obtain ⟨rfl, rfl⟩ := Prod.mk.inj hsplit
      refine Or.inr ⟨rfl, rfl, isPath_iff_matches.1 ?_, ?_⟩
      · rw [isPath_append hfirst, hcomponent, hrest, Bool.and_self]
      · -- A domain holds no slash, so it would be the first segment.
        rintro ⟨front, back, hfront, -, heq⟩
        obtain ⟨rfl, -⟩ := (Text.append_sep_inj (slash_not_mem_of_matches hfront) hfirst).1 heq
        rw [isDomain_iff_matches.2 hfront] at hdomain
        cases hdomain

/-- **What the second match captures.** A name that is matched with the group of the domain is split
behind the domain, of which there is one only; the group is left out of the other names. -/
theorem splitName?_eq_some_iff_matches :
    splitName? name = some (domain, path) ↔
      (Patterns.domain.Matches domain ∧ Patterns.path.Matches path ∧
          domain ++ '/' :: path = name) ∨
        (domain = [] ∧ path = name ∧ Patterns.path.Matches name ∧ ¬ MatchedWithDomain name) := by
  refine ⟨matches_of_splitName?, ?_⟩
  rintro (⟨hdomain, hpath, rfl⟩ | ⟨rfl, rfl, hpath, hwithout⟩)
  · rw [splitName?_append (slash_not_mem_of_matches hdomain), if_pos (isPath_iff_matches.2 hpath),
      if_pos (isDomain_iff_matches.2 hdomain)]
  · obtain ⟨⟨front, back⟩, hsplit⟩ := exists_splitName?_iff.2 (.path (matches_path.1 hpath))
    rcases matches_of_splitName? hsplit with hwith | ⟨rfl, rfl, -, -⟩
    · exact absurd ⟨front, back, hwith⟩ hwithout
    · exact hsplit

/-- **The second match never fails** on what the first one captures as a name. -/
theorem isSome_splitName?_iff_matches :
    (splitName? name).isSome = true ↔ Patterns.name.Matches name := by
  rw [isSome_splitName?, isName_iff, matches_name]

/-! ## Refusals -/

/-- What is matched by the pattern of references is refused for the limits at most. -/
theorem ofLimits_of_matches {cause : ReferenceError}
    (h : Patterns.reference.Matches text.toList) (herror : parse text = .error cause) :
    cause.OfLimits := by
  obtain ⟨parts, hparts⟩ := Option.isSome_iff_exists.1 (isSome_ofText?_iff_matches.2 h)
  have hne : ¬ text.isEmpty = true := by
    intro hempty
    rw [String.isEmpty_iff.1 hempty] at hparts
    cases hparts
  rw [parse, if_neg hne, hparts] at herror
  exact ofLimits_of_ofParts hparts herror

/-- **A text is refused for its case** exactly if it is matched in lowercase only. -/
theorem parse_eq_containsUppercase_iff :
    parse text = .error (.containsUppercase text) ↔
      ¬ Patterns.reference.Matches text.toList ∧
        Patterns.reference.Matches (lowercase text.toList) := by
  by_cases h : Patterns.reference.Matches text.toList
  · exact iff_of_false (fun herror => ofLimits_of_matches h herror) fun hnot => hnot.1 h
  · rw [and_iff_right h, matches_reference]
    exact (parse_of_not_inLanguage (matches_reference.not.1 h)).1

/-- **A text is refused for its format** exactly if it is not empty and not matched, as it is or in
lowercase. -/
theorem parse_eq_invalidFormat_iff :
    parse text = .error (.invalidFormat text) ↔
      text ≠ "" ∧ ¬ Patterns.reference.Matches text.toList ∧
        ¬ Patterns.reference.Matches (lowercase text.toList) := by
  by_cases h : Patterns.reference.Matches text.toList
  · exact iff_of_false (fun herror => ofLimits_of_matches h herror) fun hnot => hnot.2.1 h
  · rw [and_iff_right h, matches_reference]
    exact (parse_of_not_inLanguage (matches_reference.not.1 h)).2

end WorkloadImages.Reference

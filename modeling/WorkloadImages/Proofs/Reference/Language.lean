import WorkloadImages.Proofs.Reference.Parts
import WorkloadImages.Text.Bytes

/-!
# The language of references

The grammar of references by its productions, without a word on how a text is read: a text is in
the language if it can be derived. Four of the productions are parts with a separator between any
two, and are given by one relation.

```text
reference := name [ ":" tag ] [ "@" digest ]
name      := [ domain "/" ] component { "/" component }
domain    := label { "." label } [ ":" port ]
component := run { separator run }
```

## Main definitions

* `Separated`: one or more parts with a separator between any two
* `Component`, `Path`, `Domain`, `Name`: the parts of a name
* `Tag`, `Digest`: what may stand behind the name
* `Spells`: a text as a name, a tag and a digest
* `Accepted`: the references within the limits on names and digests
-/

namespace WorkloadImages.Reference.Language

/-! ## Characters -/

/-- A letter in lowercase or a digit. -/
def LowerAlnum (c : Char) : Prop := ('a' ≤ c ∧ c ≤ 'z') ∨ ('0' ≤ c ∧ c ≤ '9')

/-- A letter. -/
def Letter (c : Char) : Prop := ('a' ≤ c ∧ c ≤ 'z') ∨ ('A' ≤ c ∧ c ≤ 'Z')

/-- A decimal digit. -/
def Digit (c : Char) : Prop := '0' ≤ c ∧ c ≤ '9'

/-- A letter or a digit. -/
def Alnum (c : Char) : Prop := Letter c ∨ Digit c

/-- A hexadecimal digit in lowercase. -/
def LowerHex (c : Char) : Prop := Digit c ∨ ('a' ≤ c ∧ c ≤ 'f')

/-- A hexadecimal digit. -/
def Hex (c : Char) : Prop := LowerHex c ∨ ('A' ≤ c ∧ c ≤ 'F')

/-! ## Repetition -/

/-- One or more parts with a separator between any two. -/
inductive Separated (Separator Part : List Char → Prop) : List Char → Prop
  | one {part} : Part part → Separated Separator Part part
  | cons {part separator rest} : Part part → Separator separator → Separated Separator Part rest →
      Separated Separator Part (part ++ separator ++ rest)

/-- One or more characters of a class. -/
def Run (Class : Char → Prop) (cs : List Char) : Prop := cs ≠ [] ∧ ∀ c ∈ cs, Class c

theorem Run.singleton {Class : Char → Prop} {c : Char} (hc : Class c) : Run Class [c] := by
  refine ⟨List.cons_ne_nil c [], fun d hd => ?_⟩
  rw [List.mem_singleton.1 hd]
  exact hc

theorem Run.concat {Class : Char → Prop} {c : Char} {cs : List Char} (h : Run Class cs)
    (hc : Class c) : Run Class (cs ++ [c]) := by
  refine ⟨by simp, fun d hd => ?_⟩
  rcases List.mem_append.1 hd with hd | hd
  · exact h.2 d hd
  · rw [List.mem_singleton.1 hd]
    exact hc

/-! ## Names -/

/-- What separates the runs of a path component. -/
inductive ComponentSeparator : List Char → Prop
  | period : ComponentSeparator ['.']
  | underscore : ComponentSeparator ['_']
  | underscores : ComponentSeparator ['_', '_']
  | hyphens (n : Nat) : ComponentSeparator (List.replicate (n + 1) '-')

/-- A path component. -/
def Component : List Char → Prop := Separated ComponentSeparator (Run LowerAlnum)

/-- A path: components between slashes. -/
def Path : List Char → Prop := Separated (· = ['/']) Component

/-- A label of a host: no hyphen stands at either end. -/
inductive Label : List Char → Prop
  | one {c} : Alnum c → Label [c]
  | ends {first inner last} : Alnum first → (∀ c ∈ inner, Alnum c ∨ c = '-') → Alnum last →
      Label (first :: (inner ++ [last]))

/-- A host: labels between periods. -/
def Host : List Char → Prop := Separated (· = ['.']) Label

/-- A registry domain. -/
inductive Domain : List Char → Prop
  | host {host} : Host host → Domain host
  | port {host port} : Host host → Run Digit port → Domain (host ++ ':' :: port)

/-- A name. -/
inductive Name : List Char → Prop
  | path {path} : Path path → Name path
  | domain {domain path} : Domain domain → Path path → Name (domain ++ '/' :: path)

/-! ## Tags and digests -/

/-- A tag: up to 128 characters, no mark at the beginning but an underscore. -/
inductive Tag : List Char → Prop
  | mk {first rest} : Alnum first ∨ first = '_' → rest.length ≤ 127 →
      (∀ c ∈ rest, Alnum c ∨ c = '_' ∨ c = '.' ∨ c = '-') → Tag (first :: rest)

/-- A word of an algorithm name. -/
inductive Word : List Char → Prop
  | mk {first rest} : Letter first → (∀ c ∈ rest, Alnum c) → Word (first :: rest)

/-- The name of an algorithm: words with single marks between them. -/
def Algorithm : List Char → Prop :=
  Separated (fun mark => mark ∈ [['-'], ['_'], ['+'], ['.']]) Word

/-- A digest by any algorithm. -/
inductive Digest : List Char → Prop
  | mk {algorithm hex} : Algorithm algorithm → 32 ≤ hex.length → (∀ c ∈ hex, Hex c) →
      Digest (algorithm ++ ':' :: hex)

/-- A digest by a known algorithm, as long as the algorithm gives it. -/
inductive KnownDigest : List Char → Prop
  | sha256 {hex} : hex.length = 64 → (∀ c ∈ hex, LowerHex c) →
      KnownDigest ("sha256:".toList ++ hex)
  | sha384 {hex} : hex.length = 96 → (∀ c ∈ hex, LowerHex c) →
      KnownDigest ("sha384:".toList ++ hex)
  | sha512 {hex} : hex.length = 128 → (∀ c ∈ hex, LowerHex c) →
      KnownDigest ("sha512:".toList ++ hex)

/-! ## References -/

/-- A text is spelled by a name, a tag and a digest that are derived from the grammar. -/
inductive Spells (name : List Char) (tag digest : Option (List Char)) : List Char → Prop
  | mk : Name name → (∀ part ∈ tag, Tag part) → (∀ part ∈ digest, Digest part) →
      Spells name tag digest (name ++ marked ':' tag ++ marked '@' digest)

/-- A reference with a name of up to 255 bytes and, if it has a digest, one by a known
algorithm. -/
inductive Accepted : List Char → Prop
  | mk {name tag digest} : Name name → Text.byteLength name ≤ 255 → (∀ part ∈ tag, Tag part) →
      (∀ part ∈ digest, KnownDigest part) →
      Accepted (name ++ marked ':' tag ++ marked '@' digest)

end WorkloadImages.Reference.Language

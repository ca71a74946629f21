import WorkloadImages.Text.Split

/-!
# The language of references

A reference is a name, a tag after a colon, and a digest after an at sign, of which only the
name is required. A name is a path of components between slashes, and a domain may stand before
the path. The parts are recognised on lists of characters.

## Main definitions

* `isComponent`, `isDomain`, `isName`, `isTag`, `isDigestText`: the parts of a reference
* `Parts.ofText?`: the parts of a text in the language
* `splitName?`: the domain and the path of a name
-/

namespace WorkloadImages.Reference

open Text (cut? pieces joined)

/-! ## Path components -/

/-- Whether a character is a lowercase letter or a digit. -/
def isLowerAlnum (c : Char) : Bool := c.isLower || c.isDigit

/-- What has been read since the last letter or digit of a path component. -/
inductive Gap where
  /-- Nothing. -/
  | none
  /-- A period. -/
  | period
  /-- One underscore. -/
  | underscore
  /-- Two underscores. -/
  | underscores
  /-- One or more hyphens. -/
  | hyphens
  deriving Repr, DecidableEq

/-- The gap with one more character, if that is a separator still. -/
def Gap.push? : Gap → Char → Option Gap
  | none, '.' => some period
  | none, '_' => some underscore
  | underscore, '_' => some underscores
  | none, '-' => some hyphens
  | hyphens, '-' => some hyphens
  | _, _ => Option.none

/-- Whether a text continues a path component after a gap, up to a letter or digit. -/
def continuesComponent : Gap → List Char → Bool
  | gap, [] => gap = .none
  | gap, c :: cs =>
    if isLowerAlnum c then continuesComponent .none cs
    else match gap.push? c with
      | some gap => continuesComponent gap cs
      | none => false

/-- Whether a text is a path component: runs of lowercase letters and digits, separated by a
period, one or two underscores, or hyphens. -/
def isComponent : List Char → Bool
  | [] => false
  | c :: cs => isLowerAlnum c && continuesComponent .none cs

/-! ## Domains -/

/-- Whether a text is a label of a host: letters, digits and hyphens, no hyphen at either end. -/
def isHostLabel (cs : List Char) : Bool :=
  !cs.isEmpty && cs.all (fun c => c.isAlphanum || c = '-') && cs.head? ≠ some '-' &&
    cs.getLast? ≠ some '-'

/-- Whether a text is a host: labels separated by periods. -/
def isHost (cs : List Char) : Bool := (pieces '.' cs).all isHostLabel

/-- Whether a text is a port: decimal digits, at least one. -/
def isPort (cs : List Char) : Bool := !cs.isEmpty && cs.all Char.isDigit

/-- Whether a text is a registry domain: a host, and a port after a colon or none. -/
def isDomain (cs : List Char) : Bool :=
  -- The port holds no colon, so a second one is refused with it.
  match cut? ':' cs with
  | some (host, port) => isHost host && isPort port
  | none => isHost cs

/-! ## Tags and digests -/

/-- The greatest number of characters of a tag. -/
def maxTagLength : Nat := 128

/-- Whether a text is a tag. -/
def isTag : List Char → Bool
  | [] => false
  | c :: cs =>
    (c.isAlphanum || c = '_') && cs.length < maxTagLength &&
      cs.all fun c => c.isAlphanum || c = '_' || c = '.' || c = '-'

/-- Whether a text is the rest of an algorithm name: words that begin with a letter, separated by
single marks; `fresh` when a word has to begin. -/
def continuesAlgorithm : Bool → List Char → Bool
  | fresh, [] => !fresh
  | fresh, c :: cs =>
    if c.isAlpha then continuesAlgorithm false cs
    else if fresh then false
    else if c.isDigit then continuesAlgorithm false cs
    else (c = '-' || c = '_' || c = '+' || c = '.') && continuesAlgorithm true cs

/-- Whether a character is a hexadecimal digit. -/
def isHexDigit (c : Char) : Bool :=
  c.isDigit || ('a' ≤ c && c ≤ 'f') || ('A' ≤ c && c ≤ 'F')

/-- Whether a character is a hexadecimal digit in lowercase. -/
def isLowerHexDigit (c : Char) : Bool := c.isDigit || ('a' ≤ c && c ≤ 'f')

/-- The least number of digits that a digest of any algorithm has. -/
def minDigestLength : Nat := 32

/-- Whether a text has the form of a digest: an algorithm, a colon, hexadecimal digits. -/
def isDigestText (cs : List Char) : Bool :=
  match cut? ':' cs with
  | some (algorithm, hex) =>
    continuesAlgorithm true algorithm && minDigestLength ≤ hex.length && hex.all isHexDigit
  | none => false

/-- The number of hexadecimal digits of a digest by a known algorithm. -/
def digestLength? (algorithm : String) : Option Nat :=
  if algorithm = "sha256" then some 64
  else if algorithm = "sha384" then some 96
  else if algorithm = "sha512" then some 128
  else none

/-! ## Names -/

/-- Whether a text is the path of a repository: components between slashes. -/
def isPath (cs : List Char) : Bool := (pieces '/' cs).all isComponent

/-- Whether a text is a name: a path, with a domain and a slash before it or not. -/
def isName (cs : List Char) : Bool :=
  isPath cs ||
    -- A domain holds no slash, so it can only be the first segment.
    match cut? '/' cs with
    | some (domain, path) => isDomain domain && isPath path
    | none => false

/-- The domain and the path of a name. The first segment is the domain if it has the form of one
and is not the only segment; without a domain the first part is empty. -/
def splitName? (name : List Char) : Option (List Char × List Char) :=
  match pieces '/' name with
  | first :: second :: rest =>
    -- All segments but the first are components, whatever the first one is.
    if !(second :: rest).all isComponent then none
    else if isDomain first then some (first, joined '/' (second :: rest))
    else if isComponent first then some ([], name)
    else none
  | segments => if segments.all isComponent then some ([], name) else none

/-! ## Whole references -/

/-- What stands before and after the first colon that no slash follows. -/
def splitTag : List Char → List Char × Option (List Char)
  | [] => ([], none)
  | c :: cs =>
    -- The colon of a port has the path after it. A later colon is refused with the tag.
    if c = ':' ∧ '/' ∉ cs then ([], some cs)
    else
      let (name, tag) := splitTag cs
      (c :: name, tag)

/-- The parts of a text in the language of references. -/
structure Parts where
  /-- The name: the path, with its domain if it has one. -/
  name : List Char
  /-- The tag, if there is one. -/
  tag : Option (List Char)
  /-- The digest, if there is one. -/
  digest : Option (List Char)
  deriving Repr, DecidableEq

/-- The parts of a text, if it is in the language of references. -/
def Parts.ofText? (cs : List Char) : Option Parts :=
  -- Neither a name nor a tag holds an at sign: the first one begins the digest.
  let (named, digest) := match cut? '@' cs with
    | some (named, digest) => (named, some digest)
    | none => (cs, none)
  let (name, tag) := splitTag named
  if isName name && tag.all isTag && digest.all isDigestText then some ⟨name, tag, digest⟩
  else none

end WorkloadImages.Reference

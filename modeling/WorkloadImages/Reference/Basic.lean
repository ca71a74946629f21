import WorkloadImages.Reference.Error
import WorkloadImages.Reference.Grammar
import WorkloadImages.Text.Lowercase

/-!
# References as written

A reference as its text gives it: nothing is filled in. The text is split by the grammar, then the
length of the name is checked, the name is split in its turn, and the digest is checked.

## Main definitions

* `Reference`: the parts of a reference
* `Reference.parse`: a text as a reference, or why it is none
-/

namespace WorkloadImages

/-- An image reference as written. -/
structure Reference where
  /-- The registry domain, empty when none is named. -/
  domain : String
  /-- The path of the repository below the domain. -/
  path : String
  /-- The tag, if one is given. -/
  tag : Option String
  /-- The digest, if one is given. -/
  digest : Option String
  deriving Repr, DecidableEq

namespace Reference

/-- Refuses a digest unless its algorithm is known and its digits are as the algorithm gives
them: so many, and in lowercase. -/
def checkDigest (digest : List Char) : Except ReferenceError Unit :=
  match Text.cut? ':' digest with
  | none => .error (.invalidDigestFormat (String.ofList digest))
  | some (algorithm, hex) =>
    match digestLength? (String.ofList algorithm) with
    | none => .error (.unsupportedDigest (String.ofList algorithm))
    | some expected =>
      if hex.length ≠ expected then
        .error (.invalidDigestLength (String.ofList algorithm) expected hex.length)
      else if hex.all isLowerHexDigit then .ok ()
      else .error (.invalidDigestFormat (String.ofList digest))

/-- The reference of the parts of a text, if they keep to the limits on names and digests. -/
def ofParts (text : String) (parts : Parts) : Except ReferenceError Reference := do
  -- A name is in ASCII: its characters are its bytes.
  if parts.name.length > ReferenceError.maxNameLength then
    throw (.nameTooLong parts.name.length)
  let some (domain, path) := splitName? parts.name | throw (.invalidFormat text)
  if let some digest := parts.digest then checkDigest digest
  return ⟨String.ofList domain, String.ofList path, parts.tag.map String.ofList,
    parts.digest.map String.ofList⟩

/-- The reference that a text writes, or why it writes none. -/
def parse (text : String) : Except ReferenceError Reference :=
  if text.isEmpty then .error .empty
  else match Parts.ofText? text.toList with
    | some parts => ofParts text parts
    | none =>
      -- Case alone is to blame if the same text in lowercase is in the language.
      if (Parts.ofText? (Text.lowercase text.toList)).isSome then
        .error (.containsUppercase text)
      else .error (.invalidFormat text)

end Reference

end WorkloadImages

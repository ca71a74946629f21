/-!
# Why a text is no reference

The causes for which a text is refused as an image reference, and the wording of each.
-/

namespace WorkloadImages

/-- Why a text is no image reference. -/
inductive ReferenceError where
  /-- The text is empty. -/
  | empty
  /-- The text is not in the language of references, and its lowercase form is neither. -/
  | invalidFormat (reference : String)
  /-- The text is not in the language of references, but its lowercase form is. -/
  | containsUppercase (reference : String)
  /-- The name is longer than a name may be. -/
  | nameTooLong (length : Nat)
  /-- The digest is by an algorithm that is not known. -/
  | unsupportedDigest (algorithm : String)
  /-- The digest has not as many digits as its algorithm gives. -/
  | invalidDigestLength (algorithm : String) (expected actual : Nat)
  /-- The digest is not in lowercase hexadecimal digits. -/
  | invalidDigestFormat (digest : String)
  deriving Repr, DecidableEq

namespace ReferenceError

/-- The greatest length of a name, in bytes. -/
def maxNameLength : Nat := 255

/-- The wording of a cause. -/
def message : ReferenceError → String
  | empty => "repository name must have at least one component"
  | invalidFormat reference => "invalid reference format: " ++ reference
  | containsUppercase reference => "repository name must be lowercase: " ++ reference
  | nameTooLong length =>
    s!"repository name must not be more than {maxNameLength} characters (got {length})"
  | unsupportedDigest algorithm => "unsupported digest algorithm: " ++ algorithm
  | invalidDigestLength algorithm expected actual =>
    s!"invalid checksum digest length for {algorithm}: expected {expected}, got {actual}"
  | invalidDigestFormat digest => "invalid checksum digest format: " ++ digest

end ReferenceError

end WorkloadImages

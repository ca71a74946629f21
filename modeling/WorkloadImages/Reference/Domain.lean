import WorkloadImages.Text.Lowercase
import WorkloadImages.Text.Split

/-!
# The default domain

A reference that names no registry is looked up in a default one. Whether it names one is read
off the text before the first slash, by its look alone.
-/

namespace WorkloadImages.Reference

/-- The registry of a reference that names none. -/
def defaultDomain : String := "docker.io"

/-- Whether a leading segment looks like a registry domain: it holds a period or a colon, is
`localhost`, or holds a letter that is not lowercase. -/
def looksLikeDomain (segment : List Char) : Bool :=
  segment.contains '.' || segment.contains ':' || segment = "localhost".toList ||
    !Text.isLowercase segment

/-- Whether the text before the first slash looks like a registry domain. -/
def namesDomain (reference : List Char) : Bool :=
  match Text.cut? '/' reference with
  | some (segment, _) => looksLikeDomain segment
  | none => false

/-- The reference with the default domain before it, unless it names one. -/
def ensureDomain (reference : String) : String :=
  if namesDomain reference.toList then reference else defaultDomain ++ "/" ++ reference

end WorkloadImages.Reference

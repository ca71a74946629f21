/-!
# Bytes of a text

The length of a text in UTF-8, where a character has one to four bytes.
-/

namespace WorkloadImages.Text

/-- The number of bytes of a text. -/
def byteLength (cs : List Char) : Nat := cs.foldl (fun n c => n + c.utf8Size) 0

end WorkloadImages.Text

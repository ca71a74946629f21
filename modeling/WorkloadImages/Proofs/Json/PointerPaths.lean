import WorkloadImages.Proofs.Json.PointerText
import WorkloadImages.Proofs.Json.Resolution
import WorkloadImages.Proofs.Patch.Replace
import WorkloadImages.Proofs.Text.Replace

/-!
# Pointers for paths of fields

A path of fields is written as a pointer by replacing in every field first the tildes and then the
slashes, and is read by cutting at the slashes and undoing the two replacements in the other order.
Read in this way a text leads somewhere even if a tilde in it escapes nothing; on the texts that
write pointers it leads where the pointer does.

## Main definitions

* `Pointer.readTokens`: the tokens of a text, whatever its tildes escape
* `Json.lookUp?`: the value that a text leads to, read in this way

## Main results

* `Pointer.escape_eq_replaced`: a field is escaped by two replacements
* `Pointer.readTokens_of_decode?`: the two readings agree on the texts that write pointers
* `Pointer.encode_path`: the text of a path of fields leads where the path does
-/

namespace WorkloadImages

namespace Pointer

variable {cs token : List Char} {c : Char} {text : String} {pointer : Pointer}

/-! ## Fields as tokens -/

/-- **A field is escaped by two replacements**, that of the tildes being the first one. -/
theorem escape_eq_replaced (token : List Char) :
    escape token = Text.replaced ['/'] ['~', '1'] (Text.replaced ['~'] ['~', '0'] token) := by
  rw [Text.replaced_singleton, Text.replaced_singleton, List.flatMap_assoc, escape]
  refine congrArg (List.flatMap · token) (funext fun c => ?_)
  unfold escapeChar
  split
  · rfl
  · rw [List.flatMap_cons, List.flatMap_nil, List.append_nil]

/-- A token with the replacements undone in the other order. -/
def unescaped (cs : List Char) : List Char :=
  Text.replaced ['~', '0'] ['~'] (Text.replaced ['~', '1'] ['/'] cs)

theorem unescaped_tilde_zero (cs : List Char) :
    unescaped ('~' :: '0' :: cs) = '~' :: unescaped cs := by
  -- The slashes are put in first, so that a one behind the zero escapes nothing.
  have hone : Text.replaced ['~', '1'] ['/'] ('~' :: '0' :: cs) =
      ['~', '0'] ++ Text.replaced ['~', '1'] ['/'] cs := by
    rw [Text.replaced_cons (by simp), Text.replaced_cons_of_ne (by decide)]
    rfl
  rw [unescaped, hone, Text.replaced_append]
  rfl

theorem unescaped_tilde_one (cs : List Char) :
    unescaped ('~' :: '1' :: cs) = '/' :: unescaped cs := by
  have hone : Text.replaced ['~', '1'] ['/'] ('~' :: '1' :: cs) =
      '/' :: Text.replaced ['~', '1'] ['/'] cs :=
    Text.replaced_append '~' ['1'] ['/'] cs
  rw [unescaped, hone, Text.replaced_cons_of_ne (by decide)]
  rfl

theorem unescaped_cons (h : c ≠ '~') (cs : List Char) :
    unescaped (c :: cs) = c :: unescaped cs := by
  rw [unescaped, Text.replaced_cons_of_ne h, Text.replaced_cons_of_ne h]
  rfl

/-- Where every tilde escapes, undoing the replacements is reading the token. -/
theorem unescaped_of_unescape? (h : unescape? cs = some token) : unescaped cs = token := by
  fun_induction unescape? cs generalizing token with
  | case1 => exact Option.some.inj h
  | case2 cs ih =>
    obtain ⟨rest, hrest, rfl⟩ := Option.map_eq_some_iff.1 h
    rw [unescaped_tilde_zero, ih hrest]
  | case3 cs ih =>
    obtain ⟨rest, hrest, rfl⟩ := Option.map_eq_some_iff.1 h
    rw [unescaped_tilde_one, ih hrest]
  | case4 => cases h
  | case5 c cs hzero hone hc ih =>
    obtain ⟨rest, hrest, rfl⟩ := Option.map_eq_some_iff.1 h
    rw [unescaped_cons hc, ih hrest]

/-! ## Texts as tokens -/

/-- The tokens of a text: what stands behind each of its slashes, with the replacements undone. -/
def readTokens (text : String) : Pointer :=
  ((Text.pieces '/' text.toList).drop 1).map fun piece => String.ofList (unescaped piece)

theorem map_of_mapM_unescape? {pieces : List (List Char)}
    (h : pieces.mapM (fun piece => (unescape? piece).map String.ofList) = some pointer) :
    pieces.map (fun piece => String.ofList (unescaped piece)) = pointer := by
  induction pieces generalizing pointer with
  | nil => exact Option.some.inj h
  | cons piece pieces ih =>
    rw [List.mapM_cons] at h
    obtain ⟨first, hfirst, h⟩ := Option.bind_eq_some_iff.1 h
    obtain ⟨rest, hrest, h⟩ := Option.bind_eq_some_iff.1 h
    obtain ⟨token, htoken, rfl⟩ := Option.map_eq_some_iff.1 hfirst
    obtain rfl := Option.some.inj h
    rw [List.map_cons, unescaped_of_unescape? htoken, ih hrest]

/-- **On the texts that write pointers** the two readings agree. -/
theorem readTokens_of_decode? (h : decode? text = some pointer) : readTokens text = pointer := by
  unfold decode? at h
  unfold readTokens
  cases hcs : text.toList with
  | nil =>
    rw [hcs] at h
    exact Option.some.inj h
  | cons c cs =>
    rw [hcs] at h
    -- The piece in front of the first slash is empty, and is no token.
    by_cases hslash : c = '/'
    · subst hslash
      have hpieces : Text.pieces '/' ('/' :: cs) = [] :: Text.pieces '/' cs := by
        rw [Text.pieces, if_pos rfl]
      rw [hpieces, List.drop_one, List.tail_cons]
      exact map_of_mapM_unescape? h
    · rw [decodeChars?_cons_of_ne hslash] at h
      cases h

theorem encode_injective : Function.Injective encode := by
  intro first second h
  apply Option.some.inj
  rw [← decode?_encode, h, decode?_encode]

end Pointer

/-! ## Texts as places -/

namespace Json

/-- The value that a text leads to by the tokens behind its slashes, the first of which stands at
the front. -/
def lookUp? (text : String) (value : Json) : Option Json :=
  if text = "" ∨ text.toList.head? = some '/' then value.at? (Pointer.readTokens text) else none

/-- **A text that writes a pointer** leads where the pointer does, in either reading. -/
theorem lookUp?_eq_resolve? {text : String} (h : Pointer.IsText text) (value : Json) :
    value.lookUp? text = value.resolve? text := by
  obtain ⟨pointer, hpointer⟩ := Option.isSome_iff_exists.1 (Pointer.isSome_decode?_iff.2 h)
  rw [lookUp?, if_pos h.slash, Pointer.readTokens_of_decode? hpointer, resolve?, hpointer,
    Option.bind_some]

end Json

namespace Patch

variable {value inner : Json} {path : List String}

/-- A single operation with the text of a pointer. -/
theorem applyOps_encode (action : Action) (pointer : Pointer) (text : String) (value : Json) :
    applyOps [⟨action.word, pointer.encode, text⟩] value =
      (Operation.applyTo ⟨action, pointer, text⟩ value).mapError (.failed 0 pointer) := by
  have hop : ofOps? [⟨action.word, pointer.encode, text⟩] = some [⟨action, pointer, text⟩] := by
    rw [ofOps?, List.mapM_cons, Operation.ofOp?_encode]
    rfl
  rw [applyOps, hop]
  dsimp only
  rw [apply, applyFrom]
  cases Operation.applyTo ⟨action, pointer, text⟩ value <;> rfl

/-- Testing the text of a path compares what the path leads to. -/
theorem applyOps_test_encode (h : value.atPath? path = some inner) (text : String) :
    applyOps [⟨Action.test.word, Pointer.encode path, text⟩] value =
      if inner = .str text then .ok value else .error (.failed 0 path .mismatch) := by
  rw [applyOps_encode, Operation.applyTo]
  simp only [Json.at?_of_atPath? h]
  split <;> rfl

/-- Replacing at the text of a path changes what the path leads to. -/
theorem applyOps_replace_encode (h : value.atPath? path = some inner) (text : String) :
    applyOps [⟨Action.replace.word, Pointer.encode path, text⟩] value =
      .ok (value.modifyPath path fun _ => .str text) := by
  have hreplace : Json.modifyAt? (fun _ => some (.str text)) (path ++ []) value =
      some (value.modifyPath path fun _ => .str text) :=
    Json.modifyAt?_append h rfl
  rw [List.append_nil] at hreplace
  rw [applyOps_encode, Operation.applyTo]
  simp only [Json.replaceAt?, hreplace]
  rfl

end Patch

namespace Pointer

/-- **The text of a path of fields** is made by two replacements in every field. It writes a
pointer, which is checked with success and has the fields for its tokens however it is read, so no
two paths have one text; and in every value it leads where the path does, for whoever looks up,
tests or replaces what is there. -/
theorem encode_path :
    (∀ path : List String,
      (encode path).toList = path.flatMap (fun field => '/' ::
        Text.replaced ['/'] ['~', '1'] (Text.replaced ['~'] ['~', '0'] field.toList)) ∧
      IsText (encode path) ∧
      (∀ (action : Action) (text : String),
        Operation.ofOp? ⟨action.word, encode path, text⟩ = some ⟨action, path, text⟩) ∧
      readTokens (encode path) = path) ∧
    Function.Injective encode ∧
    ∀ (value inner : Json) (path : List String), value.atPath? path = some inner →
      value.lookUp? (encode path) = some inner ∧
      value.resolve? (encode path) = some inner ∧
      ∀ text : String,
        Patch.applyOps [⟨Action.test.word, encode path, text⟩] value =
          (if inner = .str text then .ok value else .error (.failed 0 path .mismatch)) ∧
        Patch.applyOps [⟨Action.replace.word, encode path, text⟩] value =
          .ok (value.modifyPath path fun _ => .str text) := by
  have hdecode (path : List String) : decode? (encode path) = some path := decode?_encode path
  have htext (path : List String) : IsText (encode path) :=
    isSome_decode?_iff.1 (Option.isSome_of_eq_some (hdecode path))
  refine ⟨fun path => ⟨?_, htext path, ?_, readTokens_of_decode? (hdecode path)⟩,
    encode_injective, ?_⟩
  · rw [encode, String.toList_ofList, encodeChars]
    exact congrArg (List.flatMap · path)
      (funext fun field => congrArg ('/' :: ·) (escape_eq_replaced field.toList))
  · intro action text
    exact Operation.ofOp?_encode action path text
  · intro value inner path hpath
    have hresolve : value.resolve? (encode path) = some inner := by
      rw [Json.resolve?_encode, Json.at?_of_atPath? hpath]
    refine ⟨?_, hresolve, fun text => ⟨?_, ?_⟩⟩
    · rw [Json.lookUp?_eq_resolve? (htext path), hresolve]
    · exact Patch.applyOps_test_encode hpath text
    · exact Patch.applyOps_replace_encode hpath text

/-- Objects in one another, the fields of which have to be escaped or look as if they were. -/
def escapedFields : Json :=
  .obj [("", .obj [("a/b", .obj [("~0", .obj [("~1", .obj [("~~1", .str "found")])])])])]

theorem encode_path_escapedFields :
    encode ["", "a/b", "~0", "~1", "~~1"] = "//a~1b/~00/~01/~0~01" ∧
      readTokens "//a~1b/~00/~01/~0~01" = ["", "a/b", "~0", "~1", "~~1"] ∧
      escapedFields.lookUp? "//a~1b/~00/~01/~0~01" = some (.str "found") ∧
      escapedFields.resolve? "//a~1b/~00/~01/~0~01" = some (.str "found") ∧
      Patch.applyOps [⟨"test", "//a~1b/~00/~01/~0~01", "found"⟩] escapedFields =
        .ok escapedFields := by
  have htext : encode ["", "a/b", "~0", "~1", "~~1"] = "//a~1b/~00/~01/~0~01" := by
    decide +kernel
  have hpath : escapedFields.atPath? ["", "a/b", "~0", "~1", "~~1"] = some (.str "found") := by
    decide +kernel
  obtain ⟨hfields, -, hplaces⟩ := encode_path
  obtain ⟨hlookUp, hresolve, hpatch⟩ := hplaces _ _ _ hpath
  have htest := (hpatch "found").1
  rw [if_pos rfl] at htest
  rw [htext] at hlookUp hresolve htest
  exact ⟨htext, htext ▸ (hfields _).2.2.2, hlookUp, hresolve, htest⟩

end Pointer

end WorkloadImages

import WorkloadImages.Command.Report
import WorkloadImages.Proofs.Manifest.Readings

/-!
# Streams that are printed and read again

The first character of a manifest that is not blank decides whether it is read as JSON. A stream of
objects begins with the first key of its first document, which stands between marks if it begins
with a brace. Two kinds of streams are taken for JSON all the same: those with an empty object in
front of another document, and those whose first key hides its brace behind blanks that are none to
YAML. Both are refused, and all other streams are read as what was printed.

## Main definitions

* `Manifest.mistakenForJson`: whether the stream of documents is one of the two kinds
* `Manifest.ReadsBack`: what the reader of YAML has to make of documents and their stream

## Main results

* `Manifest.isJson_print_append`: which objects make a stream that is taken for JSON
* `Manifest.read_manifest_of_mistaken`: a stream that is mistaken is refused
* `Manifest.read_manifest_of_readsBack`: any other one is read as its documents
-/

namespace WorkloadImages

variable {documents : List Json} {c : Char} {cs : List Char}

/-! ## The first character that is not blank -/

namespace Manifest

theorem isJson_append_cons (cs rest : List Char) (hblank : Text.isBlank c = false)
    (hbrace : c ≠ '\x7b') : isJson (cs ++ c :: rest) = isJson cs := by
  have hdrop : (c :: rest).dropWhile Text.isBlank = c :: rest := by
    rw [List.dropWhile_cons_of_neg (by simp [hblank])]
  unfold isJson Text.trimStart
  rw [List.dropWhile_append, hdrop]
  cases cs.dropWhile Text.isBlank with
  | nil => simp [hbrace]
  | cons first more => rfl

theorem isJson_cons (rest : List Char) (hblank : Text.isBlank c = false) (hbrace : c ≠ '\x7b') :
    isJson (c :: rest) = false :=
  isJson_append_cons [] rest hblank hbrace

end Manifest

namespace Json

theorem read_eq_error_of_not_ascii (hc : 0x80 ≤ c.toNat) :
    read (c :: cs) = .error .malformed := by
  have hspace : Raw.isSpace c = false := by
    rw [Bool.eq_false_iff]
    intro hspace
    have hle := (Raw.isBlank_of_isSpace hspace).2
    omega
  have hopens : ¬ OpensValue c := fun h => Nat.not_lt.2 hc h.bounds.2
  rw [read, Raw.read?, Raw.readValue_eq_none hopens (Raw.skipSpace_cons hspace cs)]

/-- An empty object is the whole of a text, up to space behind it. -/
theorem read_emptyObject_append (h : Raw.skipSpace cs ≠ []) :
    read ('\x7b' :: '\x7d' :: cs) = .error .malformed := by
  have hvalue : Raw.readValue (3 * (cs.length + 2) + 3) ('\x7b' :: '\x7d' :: cs) =
      some (.object [], cs) := rfl
  rw [read, Raw.read?, List.length_cons, List.length_cons, hvalue]
  simp [h]

end Json

/-! ## How an object is printed -/

namespace Yaml

theorem allowsPlain_of_styleOf (h : styleOf cs = .plain) : allowsPlain cs = true := by
  unfold styleOf at h
  split at h
  · split at h <;> cases h
  · split at h
    · next hplain => exact (Bool.and_eq_true _ _ ▸ hplain).2
    · split at h <;> cases h

/-- A character that is blank, and may stand as it is at the front of a line, is beyond ASCII. -/
theorem not_ascii_of_isBlank (hblank : Text.isBlank c = true) (hprintable : isPrintable c = true)
    (hspace : c ≠ ' ') (hbreak : isBreak c = false) : 0x80 ≤ c.toNat := by
  have hspace : c.toNat ≠ 0x20 := fun heq => hspace (Char.toNat_inj.1 heq)
  have hfeed : c.toNat ≠ 0xA := fun heq => by
    obtain rfl : c = '\n' := Char.toNat_inj.1 heq
    cases hbreak
  simp only [Text.isBlank, Text.blankRanges, List.any_cons, List.any_nil, Bool.or_eq_true,
    Bool.and_eq_true, decide_eq_true_eq, Bool.or_false] at hblank
  simp only [isPrintable, Bool.or_eq_true, Bool.and_eq_true, decide_eq_true_eq] at hprintable
  omega

/-- A plain text that begins with a brace behind blanks begins with a blank beyond ASCII. -/
theorem exists_cons_of_isJson (hplain : styleOf cs = .plain) (hjson : Manifest.isJson cs = true) :
    ∃ c rest, cs = c :: rest ∧ 0x80 ≤ c.toNat := by
  have hplain := allowsPlain_of_styleOf hplain
  cases cs with
  | nil => cases hjson
  | cons c rest =>
    simp only [allowsPlain, allowsSingle, needsDouble, hasOuterGap, beginsIndicator,
      Bool.and_eq_true, Bool.not_eq_true', Bool.or_eq_false_iff, Bool.not_eq_false', List.all_cons,
      List.any_cons, List.head?_cons, Option.any_some, decide_eq_false_iff_not] at hplain
    obtain ⟨⟨⟨⟨⟨⟨⟨⟨hprintable, -⟩, -⟩, -⟩, hbreak, -⟩, ⟨hspace, -⟩, -⟩, hindicator, -⟩, -⟩, -⟩ :=
      hplain
    refine ⟨c, rest, rfl, not_ascii_of_isBlank ?_ hprintable hspace hbreak⟩
    -- Otherwise the text begins with the brace, which is an indicator.
    by_contra hblank
    have hbrace : c ≠ '\x7b' := by
      rintro rfl
      cases hindicator
    rw [Manifest.isJson_cons rest (by simpa using hblank) hbrace] at hjson
    cases hjson

/-- A field begins with its key and a colon, or with a question mark and a blank in front of a key
that does not stand on one line with its colon. -/
theorem exists_printField_eq (indent : Nat) (key : String) (value : Json) :
    ∃ long short, printField indent (key, value) =
      if !isSimpleKey key then '?' :: ' ' :: long else printSimpleKey key ++ ':' :: short := by
  -- The printer is unfolded only where it is known what stands behind the colon.
  cases value with
  | arr items => cases items <;> exact ⟨_, _, rfl⟩
  | obj fields => cases fields <;> exact ⟨_, _, rfl⟩
  | _ => exact ⟨_, _, rfl⟩

/-- **A printed object** that is not empty begins as its first field does, whatever follows. -/
theorem exists_print_append_eq (key : String) (value : Json) (fields : Fields Json)
    (more : List Char) :
    ∃ long short, (print (.obj ((key, value) :: fields))).toList ++ more =
      if !isSimpleKey key then '?' :: ' ' :: long else printSimpleKey key ++ ':' :: short := by
  have hfields : ∃ rest,
      printFields 0 ((key, value) :: fields) = printField 0 (key, value) ++ rest := by
    cases fields with
    | nil => exact ⟨[], by rw [printFields, List.append_nil]⟩
    | cons next rest => exact ⟨_, by rw [printFields, List.append_assoc]⟩
  obtain ⟨rest, hrest⟩ := hfields
  obtain ⟨long, short, hfield⟩ := exists_printField_eq 0 key value
  refine ⟨long ++ (rest ++ more), short ++ (rest ++ more), ?_⟩
  rw [print, String.toList_ofList, hrest, hfield, List.append_assoc]
  split
  · rfl
  · rw [List.append_assoc, List.cons_append]

end Yaml

/-! ## Streams that are taken for JSON -/

namespace Manifest

/-- Whether a key is written as it is, and begins with a brace behind blanks. -/
def hidesBrace (key : String) : Bool :=
  Yaml.isSimpleKey key && Yaml.styleOf key.toList = .plain && isJson key.toList

/-- Whether the stream of documents is taken for JSON and is none. -/
def mistakenForJson : List Json → Bool
  | .obj [] :: _ :: _ => true
  | .obj ((key, _) :: _) :: _ => hidesBrace key
  | _ => false

/-- **A printed object that is not empty** is taken for JSON exactly if its first key hides a
brace, whatever follows. -/
theorem isJson_print_append (key : String) (value : Json) (fields : Fields Json)
    (more : List Char) :
    isJson ((Yaml.print (.obj ((key, value) :: fields))).toList ++ more) = hidesBrace key := by
  obtain ⟨long, short, hprint⟩ := Yaml.exists_print_append_eq key value fields more
  rw [hprint, hidesBrace]
  cases Yaml.isSimpleKey key with
  | false => exact isJson_cons _ (by decide) (by decide)
  | true =>
    simp only [Bool.not_true, Bool.false_eq_true, if_false, Bool.true_and, Yaml.printSimpleKey]
    cases Yaml.styleOf key.toList with
    -- The colon behind the key is no blank, so the brace is one of the key.
    | plain => simpa using isJson_append_cons _ _ (by decide) (by decide)
    | single => exact isJson_cons _ (by decide) (by decide)
    | double => exact isJson_cons _ (by decide) (by decide)
    | literal => exact isJson_cons _ (by decide) (by decide)

/-- A stream begins with its first document, and the mark of the next one follows. -/
theorem exists_manifest_cons_eq (document : Json) (rest : List Json) :
    ∃ more, (Report.manifest .yaml (document :: rest)).toList =
        (Yaml.print document).toList ++ more ∧ (rest ≠ [] → more.head? = some '-') := by
  rw [Report.manifest, List.map_cons]
  cases rest with
  | nil => exact ⟨[], by simp, fun h => absurd rfl h⟩
  | cons next rest =>
    rw [List.map_cons, String.intercalate_cons_cons, String.toList_append, String.toList_append,
      List.append_assoc]
    exact ⟨_, rfl, fun _ => rfl⟩

theorem mistakenForJson_iff :
    mistakenForJson documents = true ↔
      (∃ next rest, documents = .obj [] :: next :: rest) ∨
        ∃ key value fields rest, documents = .obj ((key, value) :: fields) :: rest ∧
          hidesBrace key = true := by
  unfold mistakenForJson
  split <;> simp_all

/-- **A stream that is mistaken** is refused. -/
theorem read_manifest_of_mistaken (h : mistakenForJson documents = true) :
    read (Report.manifest .yaml documents).toList = .error (.json .malformed) := by
  suffices hjson : isJson (Report.manifest .yaml documents).toList = true ∧
      Json.read (Report.manifest .yaml documents).toList = .error .malformed by
    rw [read, readValues, if_pos hjson.1, hjson.2]
  obtain ⟨next, rest, rfl⟩ | ⟨key, value, fields, rest, rfl, hhides⟩ := mistakenForJson_iff.1 h
  · -- The mark behind the empty object is no part of a JSON text.
    obtain ⟨more, htext, hmore⟩ := exists_manifest_cons_eq (.obj []) (next :: rest)
    obtain ⟨after, rfl⟩ := List.head?_eq_some_iff.1 (hmore (List.cons_ne_nil _ _))
    rw [htext]
    exact ⟨rfl, Json.read_emptyObject_append (List.cons_ne_nil '-' after)⟩
  · obtain ⟨more, htext, -⟩ := exists_manifest_cons_eq (.obj ((key, value) :: fields)) rest
    refine ⟨by rw [htext, isJson_print_append, hhides], ?_⟩
    obtain ⟨long, short, hprint⟩ := Yaml.exists_print_append_eq key value fields more
    simp only [hidesBrace, Bool.and_eq_true, decide_eq_true_eq] at hhides
    obtain ⟨⟨hsimple, hplain⟩, hkey⟩ := hhides
    obtain ⟨c, cs, hcons, hc⟩ := Yaml.exists_cons_of_isJson hplain hkey
    -- The key stands at the front as it is, and its first blank is none to the reader of JSON.
    rw [htext, hprint, hsimple, Yaml.printSimpleKey, hplain, hcons]
    exact Json.read_eq_error_of_not_ascii hc

example : mistakenForJson [.obj [("\u00a0\x7b", .int 1)]] = true := by decide

/-! ## Streams that are read again -/

/-- What the reader of YAML makes of documents that were printed: each one is read from its own
text, and a stream is read as the documents between its marks. -/
structure ReadsBack (documents : List Json) : Prop where
  /-- The text of a document has it for its only one. -/
  document : ∀ document ∈ documents,
    Yaml.Document.readAll? (Yaml.print document).toList = some [document]
  /-- The stream is read as the texts that it is made of are, one after the other. -/
  stream : Yaml.Document.readAll? (Report.manifest .yaml documents).toList =
    (documents.mapM fun document =>
      Yaml.Document.readAll? (Yaml.print document).toList).map List.flatten

theorem flatten_mapM_eq {f : Json → Option (List Json)}
    (h : ∀ document ∈ documents, f document = some [document]) :
    (documents.mapM f).map List.flatten = some documents := by
  induction documents with
  | nil => rfl
  | cons document rest ih =>
    obtain ⟨hdocument, hrest⟩ := List.forall_mem_cons.1 h
    obtain ⟨lists, hlists, hflatten⟩ := Option.map_eq_some_iff.1 (ih hrest)
    simp [List.mapM_cons, hdocument, hlists, hflatten]

theorem ReadsBack.readAll?_manifest (h : ReadsBack documents) :
    Yaml.Document.readAll? (Report.manifest .yaml documents).toList = some documents := by
  rw [h.stream, flatten_mapM_eq h.document]

/-- A text that is taken for YAML and is a stream of objects is read as these. -/
theorem read_eq_ok {text : List Char} (hobjects : ∀ document ∈ documents, document.isObject = true)
    (hyaml : isJson text = false) (hread : Yaml.Document.readAll? text = some documents) :
    read text = .ok documents := by
  have hnull : documents.filter (fun document => !document.isNull) = documents := by
    refine List.filter_eq_self.2 fun document hdocument => ?_
    obtain ⟨fields, rfl⟩ := Json.exists_eq_obj (hobjects document hdocument)
    rfl
  rw [read_eq_ok_iff_of_isJson_eq_false hyaml, yamlReading?, hread, Option.bind_some, hnull,
    allObjects?, if_pos (List.all_eq_true.2 hobjects)]

/-- **A stream that is not mistaken** is read as the documents that were printed. -/
theorem read_manifest_of_readsBack (hobjects : ∀ document ∈ documents, document.isObject = true)
    (hreads : ReadsBack documents) (h : mistakenForJson documents = false) :
    read (Report.manifest .yaml documents).toList = .ok documents := by
  have hread := hreads.readAll?_manifest
  cases documents with
  | nil => exact read_eq_ok hobjects rfl hread
  | cons document rest =>
    obtain ⟨fields, rfl⟩ := Json.exists_eq_obj (hobjects document List.mem_cons_self)
    cases fields with
    | nil =>
      cases rest with
      -- A lone empty object is the same in JSON.
      | nil => decide +kernel
      | cons next rest => cases h
    | cons field fields =>
      obtain ⟨key, value⟩ := field
      obtain ⟨more, htext, -⟩ := exists_manifest_cons_eq (.obj ((key, value) :: fields)) rest
      exact read_eq_ok hobjects (by rw [htext, isJson_print_append]; exact h) hread

end Manifest

end WorkloadImages

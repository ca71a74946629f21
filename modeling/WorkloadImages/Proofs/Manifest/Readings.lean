import WorkloadImages.Manifest
import WorkloadImages.Proofs.Json.ReadBack

/-!
# Which texts are manifests

A text may be one object in JSON, a stream of objects in YAML, or both, and then it stands for what
it is in JSON. The first character that is not blank tells the two apart: it is a brace exactly if a
text that is JSON is an object. Streams in YAML may have a brace there as well, in front of an
object that is written on one line, and those that are no JSON are refused.

## Main definitions

* `Manifest.jsonReading?`, `Manifest.yamlReading?`: the objects of a text in either format
* `Manifest.reading?`: the objects of a text, JSON being tried first
* `Manifest.passesForJson`: whether a text is taken for JSON and is none

## Main results

* `Manifest.isJson_of_read`: which JSON texts are taken for JSON
* `Manifest.read_eq_json_iff`: which texts are refused as JSON
* `Manifest.read_eq_ok_iff_reading?`: which texts are read as their objects
-/

namespace WorkloadImages

variable {text cs rest : List Char} {c : Char} {document : Json} {documents : List Json}

/-! ## The front of a JSON text -/

/-- A blank is a space or before it in ASCII, or beyond ASCII. -/
theorem Text.toNat_of_isBlank (h : isBlank c = true) : c.toNat ≤ 0x20 ∨ 0x80 ≤ c.toNat := by
  simp only [isBlank, blankRanges, List.any_cons, List.any_nil, Bool.or_eq_true,
    Bool.and_eq_true, decide_eq_true_eq, Bool.or_false] at h
  omega

namespace Json

/-- A character with which a value begins. -/
def OpensValue (c : Char) : Prop := OpensNumber c ∨ c ∈ ['n', 't', 'f', '"', '[', '\x7b']

/-- A value begins with a character of ASCII that is no blank. -/
theorem OpensValue.bounds (h : OpensValue c) : 0x20 < c.toNat ∧ c.toNat < 0x80 := by
  rcases h with (hdigit | rfl) | hmem
  · have hbounds : 48 ≤ c.toNat ∧ c.toNat ≤ 57 := Char.isDigit_iff_toNat.1 hdigit
    omega
  · decide
  · simp only [List.mem_cons, List.not_mem_nil, or_false] at hmem
    obtain rfl | rfl | rfl | rfl | rfl | rfl := hmem <;> decide

theorem readNumeral_eq_none (hc : ¬ OpensNumber c) : readNumeral (c :: cs) = none := by
  obtain ⟨hdigit, hminus⟩ := not_or.1 hc
  have hdigits : readDigits (c :: cs) = none := by
    rw [readDigits, List.takeWhile_cons_of_neg hdigit]
  have hwhole : readWhole (c :: cs) = none := by
    rw [readWhole, hdigits]
    rintro rest heq
    exact hdigit ((List.cons.inj heq).1 ▸ rfl)
  unfold readNumeral
  split
  next heq =>
    split at heq
    · next hcons => exact absurd (List.cons.inj hcons).1 hminus
    · cases heq
      simp only [hwhole]

theorem Raw.readScalar_eq_none (hc : ¬ OpensValue c) : readScalar (c :: cs) = none := by
  obtain ⟨hnumber, hword⟩ := not_or.1 hc
  rw [readScalar, readNumeral_eq_none hnumber, Option.map_none]
  all_goals
    rintro rest heq
    obtain rfl := (List.cons.inj heq).1
    exact hword (by decide)

/-- No value begins with another character. -/
theorem Raw.readValue_eq_none (hc : ¬ OpensValue c) {text : List Char}
    (htext : skipSpace text = c :: cs) (fuel : Nat) : readValue fuel text = none := by
  cases fuel with
  | zero => rfl
  | succ fuel =>
    rw [readValue, htext]
    split
    case h_3 => exact readScalar_eq_none hc
    -- A bracket and a brace begin values.
    all_goals
      next heq =>
        obtain rfl := (List.cons.inj heq).1
        exact absurd (Or.inr (by decide)) hc

namespace Raw

variable {raw : Raw} {fuel : Nat}

/-- A space is a blank of ASCII. -/
theorem isBlank_of_isSpace (h : isSpace c = true) : Text.isBlank c = true ∧ c.toNat ≤ 0x20 := by
  simp only [isSpace, Bool.or_eq_true, decide_eq_true_eq] at h
  obtain ((rfl | rfl) | rfl) | rfl := h <;> decide

/-- Spaces are left out with the other blanks. -/
theorem trimStart_skipSpace (cs : List Char) :
    Text.trimStart (skipSpace cs) = Text.trimStart cs := by
  induction cs with
  | nil => rfl
  | cons c cs ih =>
    cases hspace : isSpace c with
    | false => rw [skipSpace_cons hspace]
    | true =>
      have hskip : skipSpace (c :: cs) = skipSpace cs := List.dropWhile_cons_of_pos hspace
      have htrim : Text.trimStart (c :: cs) = Text.trimStart cs :=
        List.dropWhile_cons_of_pos (isBlank_of_isSpace hspace).1
      rw [hskip, htrim, ih]

/-- Behind the spaces of a text with a value no blank is left. -/
theorem trimStart_of_readValue (h : readValue fuel cs = some (raw, rest)) :
    Text.trimStart cs = skipSpace cs := by
  rw [← trimStart_skipSpace]
  cases hcs : skipSpace cs with
  | nil => rfl
  | cons c after =>
    refine List.dropWhile_cons_of_neg fun hblank => ?_
    -- Blanks that JSON does not leave out are controls or beyond ASCII, and open no value.
    have hopens : ¬ OpensValue c := fun hopens => by
      have hbounds := hopens.bounds
      have hrange := Text.toNat_of_isBlank hblank
      omega
    rw [readValue_eq_none hopens hcs] at h
    cases h

/-- Whether a tree is that of an object. -/
def isObject : Raw → Bool
  | object _ => true
  | _ => false

theorem isObject_of_readScalar (h : readScalar cs = some (raw, rest)) : raw.isObject = false := by
  unfold readScalar at h
  split at h
  all_goals
    obtain ⟨_, -, heq⟩ := Option.map_eq_some_iff.1 h
    obtain ⟨rfl, -⟩ := Prod.mk.inj heq
    rfl

/-- A value is an object exactly if it begins with a brace. -/
theorem isObject_of_readValue (h : readValue fuel cs = some (raw, rest)) :
    raw.isObject = decide ((skipSpace cs).head? = some '\x7b') := by
  cases fuel with
  | zero => cases h
  | succ fuel =>
    rw [readValue] at h
    split at h
    case h_3 hbrace =>
      rw [isObject_of_readScalar h, eq_comm, decide_eq_false_iff_not, List.head?_eq_some_iff]
      rintro ⟨after, heq⟩
      exact hbrace after heq
    -- A list behind a bracket and an object behind a brace, each of them empty or not.
    all_goals
      next heq =>
        rw [heq]
        split at h
        · obtain ⟨rfl, -⟩ := Prod.mk.inj (Option.some.inj h)
          rfl
        · obtain ⟨_, -, hraw⟩ := Option.map_eq_some_iff.1 h
          obtain ⟨rfl, -⟩ := Prod.mk.inj hraw
          rfl

end Raw

theorem isObject_of_ofRaw? {depth : Nat} {raw : Raw} (h : ofRaw? depth raw = some document) :
    document.isObject = raw.isObject := by
  unfold ofRaw? at h
  split at h
  · obtain rfl := Option.some.inj h
    rfl
  · obtain rfl := Option.some.inj h
    rfl
  · split at h
    · obtain rfl := Option.some.inj h
      rfl
    · obtain ⟨_, -, rfl⟩ := Option.map_eq_some_iff.1 h
      rfl
  · obtain ⟨_, -, rfl⟩ := Option.map_eq_some_iff.1 h
    rfl
  · cases h
  · obtain ⟨_, -, rfl⟩ := Option.map_eq_some_iff.1 h
    rfl
  · cases h
  · obtain ⟨_, -, rfl⟩ := Option.map_eq_some_iff.1 h
    rfl

theorem exists_readValue_of_read (h : read text = .ok document) :
    ∃ fuel raw rest, Raw.readValue fuel text = some (raw, rest) ∧
      ofRaw? maxDepth raw = some document := by
  unfold read at h
  split at h
  · cases h
  · next raw hraw =>
    unfold Raw.read? at hraw
    split at hraw
    · next found rest hvalue =>
      split at hraw
      · obtain rfl := Option.some.inj hraw
        refine ⟨_, found, rest, hvalue, ?_⟩
        split at h
        · next hdocument => rw [hdocument, Except.ok.inj h]
        · split at h <;> cases h
      · cases hraw
    · cases hraw

end Json

namespace Manifest

/-- **A JSON text is taken for JSON** exactly if it is an object. -/
theorem isJson_of_read (h : Json.read text = .ok document) : isJson text = document.isObject := by
  obtain ⟨fuel, raw, rest, hvalue, hdocument⟩ := Json.exists_readValue_of_read h
  rw [isJson, Json.Raw.trimStart_of_readValue hvalue, Json.isObject_of_ofRaw? hdocument,
    Json.Raw.isObject_of_readValue hvalue]

/-! ## Readings -/

/-- Values that are all objects. -/
def allObjects? (documents : List Json) : Option (List Json) :=
  if documents.all Json.isObject then some documents else none

/-- A text as one object in JSON. -/
def jsonReading? (text : List Char) : Option (List Json) :=
  (Json.read? text).bind fun document => allObjects? [document]

/-- A text as a stream in YAML, the documents of which that are not empty are objects. -/
def yamlReading? (text : List Char) : Option (List Json) :=
  (Yaml.Document.readAll? text).bind fun documents =>
    allObjects? (documents.filter fun document => !document.isNull)

/-- The objects of a text: JSON is tried first, and then YAML. -/
def reading? (text : List Char) : Option (List Json) := (jsonReading? text).or (yamlReading? text)

/-- Whether a text is no JSON, and a brace is its first character that is not blank. -/
def passesForJson (text : List Char) : Bool := isJson text && (Json.read? text).isNone

theorem allObjects?_eq_some_iff {values : List Json} :
    allObjects? values = some documents ↔
      (values.findIdx? fun document => !document.isObject) = none ∧ values = documents := by
  have hall : values.all Json.isObject = true ↔
      (values.findIdx? fun document => !document.isObject) = none := by
    simp [List.findIdx?_eq_none_iff]
  rw [allObjects?, ← hall]
  split
  · next h => simp [h]
  · next h => simp [h]

theorem read_eq_ok_iff :
    read text = .ok documents ↔
      ∃ values, readValues text = .ok values ∧ allObjects? values = some documents := by
  unfold read
  cases readValues text with
  | error cause => simp
  | ok values =>
    simp only [Except.ok.injEq, exists_eq_left', allObjects?_eq_some_iff]
    cases values.findIdx? fun document => !document.isObject <;> simp

/-- **A text is refused as JSON** exactly if it passes for JSON. -/
theorem read_eq_json_iff {cause : Json.ReadError} :
    read text = .error (.json cause) ↔ isJson text = true ∧ Json.read text = .error cause := by
  have hvalues : read text = .error (.json cause) ↔ readValues text = .error (.json cause) := by
    unfold read
    cases readValues text with
    | error other => simp
    | ok values =>
      dsimp only
      split <;> simp
  rw [hvalues, readValues]
  split
  · next hjson => cases Json.read text <;> simp [hjson]
  · next hjson => cases Yaml.Document.readAll? text <;> simp [hjson]

/-- A text that is not taken for JSON is no object in JSON. -/
theorem jsonReading?_of_isJson_eq_false (h : isJson text = false) : jsonReading? text = none := by
  unfold jsonReading? Json.read?
  cases hread : Json.read text with
  | error cause => rfl
  | ok document =>
    rw [isJson_of_read hread] at h
    simp [Except.toOption, allObjects?, h]

/-- **A text that is not taken for JSON** is read as YAML. -/
theorem read_eq_ok_iff_of_isJson_eq_false (h : isJson text = false) :
    read text = .ok documents ↔ yamlReading? text = some documents := by
  rw [read_eq_ok_iff, readValues, h, yamlReading?]
  cases Yaml.Document.readAll? text <;> simp

/-- **A text that is taken for JSON** is the object that JSON reads, or it is refused. -/
theorem read_eq_ok_iff_of_isJson (h : isJson text = true) :
    read text = .ok documents ↔ jsonReading? text = some documents := by
  rw [read_eq_ok_iff, readValues, h, jsonReading?, Json.read?]
  cases Json.read text <;> simp [Except.toOption]

/-- **A text is read as its objects**, those that it has in JSON before those that it has in YAML,
exactly if it does not pass for JSON; and nothing else is read. An object in JSON never passes for
JSON, and a text that does is refused, whatever it is in YAML. -/
theorem read_eq_ok_iff_reading? (text : List Char) (documents : List Json) :
    (read text = .ok documents ↔
      reading? text = some documents ∧ passesForJson text = false) ∧
    (jsonReading? text = some documents ↔ isJson text = true ∧ read text = .ok documents) ∧
    (passesForJson text = true ↔ ∃ cause, read text = .error (.json cause)) := by
  refine ⟨?_, ?_, ?_⟩
  · cases hjson : isJson text with
    | false =>
      have hpasses : passesForJson text = false := by rw [passesForJson, hjson, Bool.false_and]
      rw [read_eq_ok_iff_of_isJson_eq_false hjson, reading?, jsonReading?_of_isJson_eq_false hjson,
        Option.none_or, and_iff_left hpasses]
    | true =>
      rw [read_eq_ok_iff_of_isJson hjson, reading?, passesForJson, hjson, Bool.true_and]
      cases hread : Json.read text with
      | error cause =>
        have hnone : Json.read? text = none := by rw [Json.read?, hread]; rfl
        simp [jsonReading?, hnone]
      | ok document =>
        -- What JSON reads here is an object, so that YAML is not tried.
        have hsome : Json.read? text = some document := by rw [Json.read?, hread]; rfl
        have hobject : document.isObject = true := (isJson_of_read hread).symm.trans hjson
        simp [jsonReading?, hsome, allObjects?, hobject]
  · cases hjson : isJson text with
    | false => simp [jsonReading?_of_isJson_eq_false hjson]
    | true => simp [read_eq_ok_iff_of_isJson hjson]
  · simp only [read_eq_json_iff, passesForJson, Bool.and_eq_true, exists_and_left]
    refine and_congr_right fun _ => ?_
    rw [Json.read?]
    cases Json.read text <;> simp [Except.toOption]

/-- **A pod on one line** is an object in YAML, and it is refused for its brace. -/
theorem read_podOnOneLine :
    yamlReading? "\x7bkind: Pod\x7d\n".toList = some [.obj [("kind", .str "Pod")]] ∧
      reading? "\x7bkind: Pod\x7d\n".toList = some [.obj [("kind", .str "Pod")]] ∧
      read "\x7bkind: Pod\x7d\n".toList = .error (.json .malformed) := by
  decide +kernel

end Manifest

end WorkloadImages

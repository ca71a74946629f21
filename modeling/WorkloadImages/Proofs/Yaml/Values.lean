import WorkloadImages.Manifest
import WorkloadImages.Proofs.Json.ReadBack

/-!
# The values of manifests

A value that is read from YAML is well formed as one that is read from JSON is: an integer that does
not have 64 bits is refused, and the fields of a mapping are put in order. So every document of a
manifest is well formed, and it is an object.

## Main results

* `Yaml.Document.wellFormed_value`: what the value of a node is, by the steps of the reader
* `Manifest.wellFormed_of_read`: what the documents of a manifest are
-/

namespace WorkloadImages

open Json (WellFormed)

namespace Yaml

/-- The value of a scalar is well formed. -/
theorem Scalar.wellFormed_of_toJson? {scalar : Scalar} {value : Json}
    (h : scalar.toJson? = some value) : value.WellFormed := by
  unfold toJson? at h
  split at h
  · obtain rfl := Option.some.inj h
    exact .null
  · obtain rfl := Option.some.inj h
    exact .bool _
  · split at h
    · next hbounds =>
      obtain rfl := Option.some.inj h
      exact .int hbounds.1 hbounds.2
    · cases h
  · obtain rfl := Option.some.inj h
    exact .float _
  · obtain rfl := Option.some.inj h
    exact .null
  · obtain rfl := Option.some.inj h
    exact .str _

namespace Document

variable {α β : Type} {property : β → Prop}

/-- What every step of a reading gives, all of them give. -/
theorem forall_of_mapM {read : α → Reading β}
    (h : ∀ a jumps b jumps', (read a).run jumps = some (b, jumps') → property b) (as : List α)
    {jumps jumps' : Nat} {bs : List β} (hread : (as.mapM read).run jumps = some (bs, jumps')) :
    ∀ b ∈ bs, property b := by
  induction as generalizing jumps jumps' bs with
  | nil =>
    obtain ⟨rfl, -⟩ := Prod.mk.inj (Option.some.inj hread)
    exact fun _ hb => nomatch hb
  | cons a as ih =>
    rw [List.mapM_cons, StateT.run_bind] at hread
    obtain ⟨⟨b, between⟩, hfirst, hread⟩ := Option.bind_eq_some_iff.1 hread
    rw [StateT.run_bind] at hread
    obtain ⟨⟨rest, after⟩, hrest, hread⟩ := Option.bind_eq_some_iff.1 hread
    obtain ⟨rfl, -⟩ := Prod.mk.inj (Option.some.inj hread)
    exact List.forall_mem_cons.2 ⟨h a jumps b between hfirst, ih hrest⟩

/-- **The value of a node** is well formed, whatever aliases were followed for it. -/
theorem wellFormed_value (scope : Scope) (fuel depth : Nat) (node : Linked) {jumps jumps' : Nat}
    {result : Json} (h : (value scope fuel depth node).run jumps = some (result, jumps')) :
    result.WellFormed := by
  -- By the fuel of the reader: it is one less for what a container holds or an alias stands for.
  induction fuel generalizing depth node jumps jumps' result with
  | zero => cases h
  | succ fuel ih =>
    rw [value.eq_def] at h
    dsimp only at h
    split at h
    · split at h
      · next found hfound =>
        obtain ⟨rfl, -⟩ := Prod.mk.inj (Option.some.inj h)
        obtain ⟨scalar, -, hscalar⟩ := Option.bind_eq_some_iff.1 hfound
        exact Scalar.wellFormed_of_toJson? hscalar
      · cases h
    · rw [StateT.run_bind] at h
      obtain ⟨⟨target, between⟩, -, h⟩ := Option.bind_eq_some_iff.1 h
      exact ih _ _ h
    · split at h
      · cases h
      · rw [StateT.run_bind] at h
        obtain ⟨⟨items, between⟩, hitems, h⟩ := Option.bind_eq_some_iff.1 h
        obtain ⟨rfl, -⟩ := Prod.mk.inj (Option.some.inj h)
        exact .arr (forall_of_mapM (fun item _ _ _ hitem => ih _ item hitem) _ hitems)
    · split at h
      · cases h
      · rw [StateT.run_bind] at h
        obtain ⟨⟨fields, between⟩, hfields, h⟩ := Option.bind_eq_some_iff.1 h
        obtain ⟨rfl, -⟩ := Prod.mk.inj (Option.some.inj h)
        refine .insertAll (forall_of_mapM (fun pair _ field _ hfield => ?_) _ hfields)
        rw [StateT.run_bind] at hfield
        obtain ⟨⟨key, afterKey⟩, -, hfield⟩ := Option.bind_eq_some_iff.1 hfield
        rw [StateT.run_bind] at hfield
        obtain ⟨⟨inner, afterValue⟩, hinner, hfield⟩ := Option.bind_eq_some_iff.1 hfield
        obtain ⟨rfl, -⟩ := Prod.mk.inj (Option.some.inj hfield)
        exact ih _ _ hinner
    · cases h

theorem wellFormed_of_value? {node : Node} {result : Json} (h : value? node = some result) :
    result.WellFormed := by
  unfold value? at h
  obtain ⟨root, -, h⟩ := Option.bind_eq_some_iff.1 h
  obtain ⟨⟨found, jumps⟩, hfound, h⟩ := Option.bind_eq_some_iff.1 h
  obtain rfl := Option.some.inj h
  exact wellFormed_value _ _ _ _ hfound

theorem wellFormed_of_mapM_value? {nodes : List Node} {documents : List Json}
    (h : nodes.mapM value? = some documents) : ∀ document ∈ documents, document.WellFormed := by
  induction nodes generalizing documents with
  | nil =>
    obtain rfl := Option.some.inj h
    exact fun _ hdocument => nomatch hdocument
  | cons node nodes ih =>
    rw [List.mapM_cons] at h
    obtain ⟨first, hfirst, h⟩ := Option.bind_eq_some_iff.1 h
    obtain ⟨rest, hrest, h⟩ := Option.bind_eq_some_iff.1 h
    obtain rfl := Option.some.inj h
    exact List.forall_mem_cons.2 ⟨wellFormed_of_value? hfirst, ih hrest⟩

theorem wellFormed_of_readAll? {text : List Char} {documents : List Json}
    (h : readAll? text = some documents) : ∀ document ∈ documents, document.WellFormed := by
  unfold readAll? at h
  obtain ⟨tokens, -, h⟩ := Option.bind_eq_some_iff.1 h
  obtain ⟨nodes, -, h⟩ := Option.bind_eq_some_iff.1 h
  exact wellFormed_of_mapM_value? h

end Document

end Yaml

namespace Manifest

variable {text : List Char} {documents : List Json}

theorem readValues_of_read (h : read text = .ok documents) :
    readValues text = .ok documents ∧ ∀ document ∈ documents, document.isObject = true := by
  unfold read at h
  cases hvalues : readValues text with
  | error cause =>
    rw [hvalues] at h
    cases h
  | ok values =>
    rw [hvalues] at h
    dsimp only at h
    split at h
    · cases h
    · next hnone =>
      obtain rfl := Except.ok.inj h
      refine ⟨rfl, fun document hdocument => ?_⟩
      simpa using List.findIdx?_eq_none_iff.1 hnone document hdocument

/-- **The documents of a manifest** are well formed, and they are objects. -/
theorem wellFormed_of_read (h : read text = .ok documents) :
    ∀ document ∈ documents, document.WellFormed ∧ document.isObject = true := by
  obtain ⟨hvalues, hobjects⟩ := readValues_of_read h
  refine fun document hdocument => ⟨?_, hobjects document hdocument⟩
  unfold readValues at hvalues
  split at hvalues
  · split at hvalues
    · next found hfound =>
      obtain rfl := Except.ok.inj hvalues
      obtain rfl := List.mem_singleton.1 hdocument
      exact (Json.wellFormed_of_read hfound).1
    · cases hvalues
  · split at hvalues
    · next found hfound =>
      obtain rfl := Except.ok.inj hvalues
      exact Yaml.Document.wellFormed_of_readAll? hfound document (List.mem_filter.1 hdocument).1
    · cases hvalues

end Manifest

end WorkloadImages

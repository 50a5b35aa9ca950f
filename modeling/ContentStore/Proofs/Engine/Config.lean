import ContentStore.Engine.Config
import ContentStore.Proofs.Json.Fields
import ContentStore.Proofs.Toml.Lines
import ContentStore.Proofs.Values

/-!
# Limits read back

The limits are read back from their JSON form, and from a file that gives them line by line, in any order
and among other keys. A file either counts as a whole or not at all.
-/

namespace ContentStore.EngineConfig

open Json (ReadsBack Record)
open Toml (Lines linesChars entriesOf)

/-! ## JSON -/

structure Fits (c : EngineConfig) (greatest : Nat) : Prop where
  maxObjectDepth : c.maxObjectDepth ≤ greatest
  maxPackEntities : c.maxPackEntities ≤ greatest
  maxBatchDocuments : c.maxBatchDocuments ≤ greatest

theorem readsBack {c : EngineConfig} (h : c.Fits 18446744073709551615) : ReadsBack toJson ofRaw? c := by
  rw [ReadsBack, toJson, ofRaw?, fieldNames, Record.ofRaw?_ofJson (by decide) (by simp)]
  simp [List.lookup_cons, Json.nat?_ofNat h.maxObjectDepth, Json.nat?_ofNat h.maxPackEntities,
    Json.nat?_ofNat h.maxBatchDocuments]

/-- The limits are read back from the text of their JSON form. -/
theorem text_readsBack {c : EngineConfig} (h : c.Fits 18446744073709551615) :
    (Json.Raw.ofText? c.toJson.text).bind ofRaw? = some c := by
  refine (readsBack h).ofText ?_
  simp [toJson, Json.nesting, Json.nestingOfMembers, Json.nestingLimit]

/-! ## Files -/

/-- What the root table of a document gives for a limit: the default where the limit is missing, else a
number that is not negative. -/
inductive Gives (entries : List (String × Toml.Item)) (name : String) (usual : Nat) : Nat → Prop where
  | missing (absent : entries.lookup name = none) : Gives entries name usual usual
  | given {n : Nat} (found : entries.lookup name = some (.value (.integer n))) :
      Gives entries name usual n

theorem limit?_eq_some_iff {entries : List (String × Toml.Item)} {name : String} {usual n : Nat} :
    limit? entries name usual = some n ↔ Gives entries name usual n := by
  constructor
  · intro h
    unfold limit? at h
    split at h
    · next habsent =>
        cases h
        exact .missing habsent
    · next size hfound =>
        split at h
        · next hsize =>
            cases h
            rw [← Int.toNat_of_nonneg hsize] at hfound
            exact .given hfound
        · cases h
    · cases h
  · intro h
    cases h with
    | missing absent => simp [limit?, absent]
    | given found => simp [limit?, found]

/-- A document gives limits exactly if it can be read and gives each of them; one limit that is not a
number leaves the document without any. -/
theorem ofToml?_eq_some_iff {text : String} {c : EngineConfig} :
    ofToml? text = some c ↔ ∃ entries, Toml.document? text = some entries ∧
      Gives entries "max_json_object_depth" 256 c.maxObjectDepth ∧
      Gives entries "max_pack_entities" 10000 c.maxPackEntities ∧
      Gives entries "max_batch_documents" 10000 c.maxBatchDocuments := by
  simp only [ofToml?, Option.bind_eq_bind, Option.bind_eq_some_iff, limit?_eq_some_iff]
  constructor
  · intro h
    obtain ⟨entries, hentries, depth, hdepth, entities, hentities, documents, hdocuments, h⟩ := h
    cases h
    exact ⟨entries, hentries, hdepth, hentities, hdocuments⟩
  · intro h
    obtain ⟨entries, hentries, hdepth, hentities, hdocuments⟩ := h
    exact ⟨entries, hentries, _, hdepth, _, hentities, _, hdocuments, rfl⟩

def ofPairs (pairs : List (String × Nat)) : EngineConfig where
  maxObjectDepth := (pairs.lookup "max_json_object_depth").getD 256
  maxPackEntities := (pairs.lookup "max_pack_entities").getD 10000
  maxBatchDocuments := (pairs.lookup "max_batch_documents").getD 10000

theorem gives_entriesOf (pairs : List (String × Nat)) (name : String) (usual : Nat) :
    Gives (entriesOf pairs) name usual ((pairs.lookup name).getD usual) := by
  have hlookup : (entriesOf pairs).lookup name =
      (pairs.lookup name).map fun n => .value (.integer n) :=
    Entries.lookup_map (fun _ (n : Nat) => Toml.Item.value (.integer n)) name pairs
  cases hname : pairs.lookup name with
  | none =>
      rw [hname] at hlookup
      exact .missing hlookup
  | some n =>
      rw [hname] at hlookup
      exact .given hlookup

/-- From plain lines each limit takes the number that its line gives, whatever other lines there are. -/
theorem ofToml?_linesChars {pairs : List (String × Nat)} (h : Lines pairs) :
    ofToml? (String.ofList (linesChars pairs)) = some (ofPairs pairs) :=
  ofToml?_eq_some_iff.2 ⟨entriesOf pairs, Toml.document?_linesChars h, gives_entriesOf pairs _ _,
    gives_entriesOf pairs _ _, gives_entriesOf pairs _ _⟩

def toPairs (c : EngineConfig) : List (String × Nat) :=
  [("max_json_object_depth", c.maxObjectDepth), ("max_pack_entities", c.maxPackEntities),
    ("max_batch_documents", c.maxBatchDocuments)]

theorem fromUTF8?_toUTF8 (text : String) : String.fromUTF8? text.toUTF8 = some text := by
  unfold String.fromUTF8?
  rw [String.toUTF8_eq_toByteArray, dif_pos text.isValidUTF8]
  rfl

/-- The limits are loaded from a file that has a line for each of them, in any order and among lines for
other keys. -/
theorem load_linesChars {c : EngineConfig} {pairs : List (String × Nat)} (h : Lines pairs)
    (hc : c.toPairs ⊆ pairs) : load (some (String.ofList (linesChars pairs)).toUTF8) = c := by
  have hlookup : ∀ name n, (name, n) ∈ c.toPairs → pairs.lookup name = some n :=
    fun name n hmem => (Entries.lookup_eq_some_iff_mem h.distinct).2 (hc hmem)
  have hpairs : ofPairs pairs = c := by
    rw [ofPairs, hlookup "max_json_object_depth" c.maxObjectDepth (by simp [toPairs]),
      hlookup "max_pack_entities" c.maxPackEntities (by simp [toPairs]),
      hlookup "max_batch_documents" c.maxBatchDocuments (by simp [toPairs])]
    rfl
  rw [load, Option.bind_some, fromUTF8?_toUTF8, Option.bind_some, ofToml?_linesChars h, hpairs]
  rfl

/-- A file counts as a whole or not at all. -/
theorem load_eq_default_or (file : Option ByteArray) : load file = {} ∨
    ∃ bytes text, file = some bytes ∧ String.fromUTF8? bytes = some text ∧
      ofToml? text = some (load file) := by
  cases hread : (file.bind String.fromUTF8?).bind ofToml? with
  | none =>
      left
      rw [load, hread]
      rfl
  | some c =>
      right
      obtain ⟨text, htext, hc⟩ := Option.bind_eq_some_iff.1 hread
      obtain ⟨bytes, hbytes, htext⟩ := Option.bind_eq_some_iff.1 htext
      exact ⟨bytes, text, hbytes, htext, by rw [load, hread, hc]; rfl⟩

end ContentStore.EngineConfig

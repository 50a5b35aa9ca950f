import ContentStore.Json.Build
import ContentStore.Json.Record
import ContentStore.Toml.Document

/-!
# Limits of an engine

The limits come from a TOML file or from JSON. Each has a default, and a file that cannot be read as a
whole counts for nothing.
-/

namespace ContentStore

open Json (Raw Record)

structure EngineConfig where
  /-- The bound on the nesting of free objects in content. -/
  maxObjectDepth : Nat := 256
  /-- The greatest number of entries of a pack. -/
  maxPackEntities : Nat := 10000
  /-- The greatest number of documents created at once. -/
  maxBatchDocuments : Nat := 10000
  deriving DecidableEq

namespace EngineConfig

def fieldNames : List String :=
  ["max_json_object_depth", "max_pack_entities", "max_batch_documents"]

def toJson (c : EngineConfig) : Json :=
  .object [("max_json_object_depth", Json.ofNat c.maxObjectDepth),
    ("max_pack_entities", Json.ofNat c.maxPackEntities),
    ("max_batch_documents", Json.ofNat c.maxBatchDocuments)]

def ofRaw? (raw : Raw) : Option EngineConfig := do
  let usual : EngineConfig := {}
  let record ← Record.ofRaw? fieldNames raw
  let maxObjectDepth ← record.withDefault? "max_json_object_depth" usual.maxObjectDepth Raw.nat?
  let maxPackEntities ← record.withDefault? "max_pack_entities" usual.maxPackEntities Raw.nat?
  let maxBatchDocuments ← record.withDefault? "max_batch_documents" usual.maxBatchDocuments Raw.nat?
  return { maxObjectDepth, maxPackEntities, maxBatchDocuments }

/-- A limit from the root table of a document: missing, or an integer that is not negative. -/
def limit? (entries : List (String × Toml.Item)) (name : String) (usual : Nat) : Option Nat :=
  match entries.lookup name with
  | none => some usual
  | some (.value (.integer n)) => if 0 ≤ n then some n.toNat else none
  | some _ => none

def ofToml? (text : String) : Option EngineConfig := do
  let usual : EngineConfig := {}
  let entries ← Toml.document? text
  let maxObjectDepth ← limit? entries "max_json_object_depth" usual.maxObjectDepth
  let maxPackEntities ← limit? entries "max_pack_entities" usual.maxPackEntities
  let maxBatchDocuments ← limit? entries "max_batch_documents" usual.maxBatchDocuments
  return { maxObjectDepth, maxPackEntities, maxBatchDocuments }

/-- The limits from the bytes of a file, if there is one; the defaults where it cannot be read. -/
def load (file : Option ByteArray) : EngineConfig :=
  ((file.bind String.fromUTF8?).bind ofToml?).getD {}

end EngineConfig

end ContentStore

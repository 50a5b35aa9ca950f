import ContentStore.Content.Walk
import ContentStore.Id.Mapping

/-!
# References in schemas and content

A schema may fix the collection of a document reference. Content names the collection and the document
of every document reference that it holds; those are found by walking it along the schema. Either may
hold proto ids, which are replaced by what they stand for. Everything else stays as it is.
-/

namespace ContentStore

open Json (Raw Record)

namespace Definition

def fixedCollection? : Definition → Option String
  | .documentRef collection => collection
  | _ => none

end Definition

namespace Schema

def fixedCollectionIds (schema : Schema) : List (String × String) :=
  schema.types.entries.flatMap fun (typeName, d) =>
    (d.nodes.filterMap Definition.fixedCollection?).map fun id => (typeName, id)

def protoCollectionIds (schema : Schema) : SortedSet ProtoId :=
  SortedSet.ofList (schema.fixedCollectionIds.filterMap fun (_, id) => ProtoId.ofKind? .collection id)

def resolveCollections (schema : Schema) (mapping : IdMapping) : Schema :=
  schema.mapCollectionIds mapping.resolve

/-- The schema with the sign for its own collection replaced by that collection's id. -/
def resolveSelf (schema : Schema) (own : CollectionId) : Schema :=
  schema.mapCollectionIds fun id => if id = selfCollection then own.text else id

end Schema

/-- A document that content refers to, by the texts that it holds. -/
structure DocumentReference where
  collectionId : String
  documentId : String
  deriving DecidableEq

namespace DocumentReference

def text (r : DocumentReference) : String :=
  r.collectionId ++ "/" ++ r.documentId

def toJson (r : DocumentReference) : Json :=
  .object [("collectionId", .string r.collectionId), ("documentId", .string r.documentId)]

def ofRaw? (raw : Raw) : Option DocumentReference := do
  let record ← Record.ofRaw? ["collectionId", "documentId"] raw
  let collectionId ← record.required? "collectionId" Raw.string?
  let documentId ← record.required? "documentId" Raw.string?
  return { collectionId, documentId }

end DocumentReference

/-- An id that a document reference in content holds, with the way to it and the kind it should have. -/
structure IdReference where
  path : Path
  expected : Kind
  value : String
  deriving DecidableEq

def referenceKeys : List (String × Kind) :=
  [("collectionId", .collection), ("documentId", .document)]

namespace Visit

def isDocumentRef (visit : Visit) : Bool :=
  visit.definition.dataType == .documentRef

def isFile (visit : Visit) : Bool :=
  visit.definition.dataType == .file

def text? (visit : Visit) (key : String) : Option String :=
  (visit.value.get? key).bind Json.string?

def references (visit : Visit) : List IdReference :=
  if visit.isDocumentRef then
    referenceKeys.filterMap fun (key, expected) =>
      (visit.text? key).map fun value => ⟨visit.path ++ [.name key], expected, value⟩
  else []

def documentReference? (visit : Visit) : Option DocumentReference :=
  if visit.isDocumentRef then do
    let collectionId ← visit.text? "collectionId"
    let documentId ← visit.text? "documentId"
    return { collectionId, documentId }
  else none

end Visit

namespace Schema

def contentReferences (schema : Schema) (content : Json) : Except StructureError (List IdReference) :=
  (schema.visitContent content).map fun visits => visits.flatMap Visit.references

def protoDocumentIds (schema : Schema) (content : Json) : Except StructureError (SortedSet ProtoId) :=
  (schema.visitContent content).map fun visits =>
    SortedSet.ofList ((visits.filter Visit.isDocumentRef).filterMap fun visit =>
      (visit.text? "documentId").bind (ProtoId.ofKind? .document))

end Schema

namespace Resolution

/-- The mapping for the ids under a key of document references. -/
def forKey? (resolution : Resolution) (key : String) : Option IdMapping :=
  if key = "collectionId" then some resolution.collections
  else if key = "documentId" then some resolution.documents
  else none

def resolveMember (resolution : Resolution) (member : String × Json) : String × Json :=
  match resolution.forKey? member.1, member.2 with
  | some mapping, .string id => (member.1, .string (mapping.resolve id))
  | _, value => (member.1, value)

/-- What a visited value becomes: the ids of a document reference are resolved. -/
def resolveVisit (resolution : Resolution) (visit : Visit) : Json :=
  match visit.definition, visit.value with
  | .documentRef _, .object members => .object (members.map resolution.resolveMember)
  | _, value => value

end Resolution

namespace Schema

def resolveContent (schema : Schema) (resolution : Resolution) (content : Json) :
    Except StructureError Json :=
  schema.mapVisited resolution.resolveVisit content

end Schema

end ContentStore

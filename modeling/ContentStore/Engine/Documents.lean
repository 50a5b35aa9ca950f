import ContentStore.Content.Reference
import ContentStore.Content.Validator
import ContentStore.Engine.Operation

/-!
# Creating documents

Content must be free of issues under its collection's schema. The documents that it refers to must be
the new document itself, pending, or stored, each in the collection that the reference names; the files
that it refers to must be stored. New files are stored with the document, in the order of the walk, and
their places in the content take references to them.
-/

namespace ContentStore

namespace Visit

def file? (visit : Visit) : Option FileValue :=
  if visit.isFile then FileValue.ofJson? visit.value else none

def storedFileId? (visit : Visit) : Option String :=
  match visit.file? with
  | some (.stored id _ _) => some id
  | _ => none

/-- The name, media type and bytes of the new file at a visited position. A file whose bytes cannot be
read would be stored empty. -/
def newFile? (visit : Visit) : Option (String × String × List UInt8) :=
  match visit.file? with
  | some (.new name mimeType content) =>
      some (name, mimeType, (FileValue.new name mimeType content).bytes?.getD [])
  | _ => none

end Visit

def placeFiles : Visitor (List Json) := fun visit references =>
  match visit.newFile?, references with
  | some _, reference :: rest => (reference, rest)
  | _, references => (visit.value, references)

namespace Operation

def loadCollection (id : CollectionId) : Operation Collection := do
  match ← get? .collection id with
  | some collection => return collection
  | none => throw (.collectionNotFound id.text)

/-- The collection of a document that is being created, pending or stored. -/
def collectionOf? (pending : Pending) (ownId : DocumentId) (ownCollection : CollectionId)
    (id : DocumentId) : Operation (Option CollectionId) := do
  if id = ownId then return some ownCollection
  match pending.documents.lookup id with
  | some collection => return some collection
  | none =>
      let document : Option Document ← get? .document id
      return document.map Document.collectionId

def referenceHolds (pending : Pending) (ownId : DocumentId) (ownCollection : CollectionId)
    (reference : DocumentReference) : Operation Bool := do
  match RealId.ofText? .document reference.documentId with
  | none => return false
  | some id =>
      let collection ← collectionOf? pending ownId ownCollection id
      return collection.any fun c => c.text == reference.collectionId

/-- The references that do not hold, each once, in order. -/
def missingReferences (holds : DocumentReference → Operation Bool) :
    List DocumentReference → Operation (List DocumentReference)
  | references => do
      let broken ← references.filterM fun reference => return !(← holds reference)
      return broken.foldl (fun found r => if found.contains r then found else found ++ [r]) []

def fileHolds (text : String) : Operation Bool := do
  match RealId.ofText? .file text with
  | none => return false
  | some id => present .file id

/-- The ids that name no stored file, sorted, each once. -/
def missingFiles (ids : List String) : Operation (List String) := do
  let broken ← ids.filterM fun id => return !(← fileHolds id)
  return (SortedSet.ofList broken).toList

def filesToStore : List (String × String × List UInt8) → Operation (List StoredFile)
  | [] => return []
  | (name, mimeType, content) :: rest => do
      let id ← fresh .file
      let createdAt ← now
      return { id, name, mimeType, content, createdAt } :: (← filesToStore rest)

def newDocument (validator : Validator) (pending : Pending) (id : DocumentId)
    (collection : Collection) (content : Json) : Operation Document := do
  let issues ← ofExcept .brokenSchema (validator.validate collection.schema content)
  unless issues.isEmpty do
    throw (.documentContentNotValid collection.id issues)
  let visits ← ofExcept .brokenSchema (collection.schema.visitContent content)
  let missing ← missingReferences (referenceHolds pending id collection.id)
    (visits.filterMap Visit.documentReference?)
  unless missing.isEmpty do
    throw (.referencedDocumentsNotFound missing)
  let missing ← missingFiles (visits.filterMap Visit.storedFileId?)
  unless missing.isEmpty do
    throw (.filesNotFound missing)
  let files ← filesToStore (visits.filterMap Visit.newFile?)
  files.forM fun file => @insert .file file
  let (content, _) ← ofExcept .brokenSchema
    (collection.schema.changeContent placeFiles content (files.map StoredFile.reference))
  let document : Document := { id, collectionId := collection.id, content, createdAt := ← now }
  @insert .document document
  return document

def newResolvedDocument (validator : Validator) (pending : Pending) (resolution : Resolution)
    (id : DocumentId) (collectionId : CollectionId) (content : Json) : Operation Document := do
  let collection ← loadCollection collectionId
  let content ← ofExcept .brokenSchema (collection.schema.resolveContent resolution content)
  newDocument validator pending id collection content

/-- The loaded collections, with the one of this id among them. -/
def loadOnce (loaded : List (CollectionId × Collection)) (id : CollectionId) :
    Operation (List (CollectionId × Collection)) := do
  if (loaded.lookup id).isSome then
    return loaded
  return (id, ← loadCollection id) :: loaded

/-- Creates the documents of a batch one after another. A collection is loaded for the first of its
documents only. -/
def insertBatch (validator : Validator) (pending : Pending) (resolution : Resolution) :
    List (CollectionId × Collection) → List (DocumentId × DocumentSpec) → Operation (List Document)
  | _, [] => return []
  | loaded, (id, spec) :: rest => do
      let loaded ← loadOnce loaded spec.collectionId
      match loaded.lookup spec.collectionId with
      | none => throw (.collectionNotFound spec.collectionId.text)
      | some collection =>
          let content ← ofExcept .brokenSchema
            (collection.schema.resolveContent resolution spec.content)
          let document ← newDocument validator pending id collection content
          return document :: (← insertBatch validator pending resolution loaded rest)

end Operation

namespace Engine

def validator (engine : Engine) : Validator where
  formats := engine.formats
  maxObjectDepth := engine.config.maxObjectDepth

def createDocument (engine : Engine) (collection : CollectionId) (content : Json) :
    Except EngineError Document × Engine :=
  engine.run do
    let collection ← Operation.loadCollection collection
    let id ← Operation.fresh .document
    Operation.newDocument engine.validator {} id collection content

/-- Creates several documents, all or none. Their content may refer to one another by position. -/
def createDocuments (engine : Engine) (specs : List DocumentSpec) :
    Except EngineError (List Document) × Engine :=
  if engine.config.maxBatchDocuments < specs.length then
    (.error (.batchTooLarge specs.length engine.config.maxBatchDocuments), engine)
  else
    engine.run do
      let ids ← Operation.freshFor .document specs
      let resolution : Resolution := { documents := IdMapping.ofIds ids }
      let pending : Pending := { documents := ids.zip (specs.map DocumentSpec.collectionId) }
      Operation.insertBatch engine.validator pending resolution [] (ids.zip specs)

end Engine

end ContentStore

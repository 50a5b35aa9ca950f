import ContentStore.Content.Reference
import ContentStore.Store.Transaction

/-!
# Why an operation of an engine fails

Content and packs that are not valid are reported with all their issues, references with all that lead
nowhere. An error of an id, a schema or the store is passed on as it is.
-/

namespace ContentStore

inductive EngineError where
  | packNotValid (issues : List Issue)
  | collectionSchemaNotValid (issues : List Issue)
  | documentContentNotValid (collection : CollectionId) (issues : List Issue)
  | filesNotFound (ids : List String)
  | referencedDocumentsNotFound (references : List DocumentReference)
  | collectionNotFound (id : String)
  | categoryNotFound (id : String)
  | appNotFound (id : String)
  | batchTooLarge (count max : Nat)
  | invalidId (error : IdError)
  | brokenSchema (error : StructureError)
  | refused (error : StoreError)
  deriving DecidableEq

namespace EngineError

def listed (texts : List String) : String :=
  String.intercalate ", " texts

def message : EngineError → String
  | .packNotValid issues => "pack is not valid: " ++ listed (issues.map Issue.text)
  | .collectionSchemaNotValid issues =>
      "collection schema is not valid: " ++ listed (issues.map Issue.text)
  | .documentContentNotValid collection issues =>
      "document content is not valid for collection " ++ collection.text ++ ": " ++
        listed (issues.map Issue.text)
  | .filesNotFound ids => "files not found: " ++ listed ids
  | .referencedDocumentsNotFound references =>
      "referenced documents not found: " ++ listed (references.map DocumentReference.text)
  | .collectionNotFound id => "collection not found: " ++ id
  | .categoryNotFound id => "collection category not found: " ++ id
  | .appNotFound id => "app not found: " ++ id
  | .batchTooLarge count max =>
      "batch of " ++ toString count ++ " documents exceeds the limit of " ++ toString max
  | .invalidId error => error.message
  | .brokenSchema error => error.message
  | .refused error => error.message

end EngineError

end ContentStore

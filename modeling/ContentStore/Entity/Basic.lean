import ContentStore.Id.Real
import ContentStore.Json.Pointer
import ContentStore.Content.FileValue
import ContentStore.Schema.Basic

/-!
# Entities

Collections hold documents of one schema and are grouped in a tree of categories; apps show collections;
files are stored for the documents that refer to them.
-/

namespace ContentStore

/-- A category in the tree that groups collections. -/
structure CollectionCategory where
  id : CollectionCategoryId
  name : String
  icon : String
  parentId : Option CollectionCategoryId
  createdAt : Int64

structure CollectionSettings where
  name : String
  icon : String
  description : String
  categoryId : Option CollectionCategoryId
  defaultAppId : Option AppId

/-- How versions of a collection's documents are compared and summed up; both texts are kept as they are. -/
structure VersionSettings where
  blockingKeysGetter : Option String := none
  summaryGetter : Option String := none

/-- A set of documents of one schema. -/
structure Collection where
  id : CollectionId
  settings : CollectionSettings
  schema : Schema
  versionSettings : VersionSettings
  createdAt : Int64

/-- A program that shows collections, with its files by path. -/
structure App where
  id : AppId
  appType : String
  name : String
  targets : List CollectionId
  files : SortedMap String String
  createdAt : Int64

structure Document where
  id : DocumentId
  collectionId : CollectionId
  content : Json
  createdAt : Int64

def Document.text? (document : Document) (pointer : String) : Option String :=
  (document.content.at? pointer).bind Json.string?

structure DocumentSpec where
  collectionId : CollectionId
  content : Json

structure StoredFile where
  id : FileId
  name : String
  mimeType : String
  content : List UInt8
  createdAt : Int64

def StoredFile.reference (file : StoredFile) : Json :=
  fileReference file.id.text file.name file.mimeType

abbrev Entity : Kind → Type
  | .collectionCategory => CollectionCategory
  | .collection => Collection
  | .app => App
  | .document => Document
  | .file => StoredFile

def Entity.id : {kind : Kind} → Entity kind → RealId kind
  | .collectionCategory, e => CollectionCategory.id e
  | .collection, e => Collection.id e
  | .app, e => App.id e
  | .document, e => Document.id e
  | .file, e => StoredFile.id e

end ContentStore

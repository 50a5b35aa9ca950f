import ContentStore.Entity.Basic

/-!
# Packs

A pack describes entities that refer to one another and are created together. A reference is a text: the
id of a stored entity, or the proto id of an entry of the pack. A schema may also name its own collection
by the sign for it.
-/

namespace ContentStore

structure PackInfo where
  name : String := ""
  description : String := ""
  version : Option String := none

structure CategorySpec where
  name : String
  icon : String
  parentId : Option String

structure SettingsSpec where
  name : String
  icon : String
  description : String
  categoryId : Option String
  defaultAppId : Option String

structure CollectionSpec where
  settings : SettingsSpec
  schema : Schema
  versionSettings : VersionSettings

structure AppSpec where
  appType : String
  name : String
  targets : List String
  files : SortedMap String String

structure PackDocumentSpec where
  collectionId : String
  content : Json

/-- Descriptions of entities that are created together. -/
structure Pack where
  id : String
  info : PackInfo
  categories : List CategorySpec
  collections : List CollectionSpec
  apps : List AppSpec
  documents : List PackDocumentSpec

namespace Pack

def count (pack : Pack) : Kind → Nat
  | .collectionCategory => pack.categories.length
  | .collection => pack.collections.length
  | .app => pack.apps.length
  | .document => pack.documents.length
  | .file => 0

def entityCount (pack : Pack) : Nat :=
  pack.categories.length + pack.collections.length + pack.apps.length + pack.documents.length

end Pack

/-- The entities created from a pack, in the order of its entries. -/
structure PackInstallation where
  categories : List CollectionCategory
  collections : List Collection
  apps : List App
  documents : List Document

end ContentStore

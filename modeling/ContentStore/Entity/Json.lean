import ContentStore.Entity.Pack
import ContentStore.Schema.Json

/-!
# The JSON forms of entities and packs

Entities are records. The optional references of stored entities are written as null, those of version
settings and pack information are left out.
-/

namespace ContentStore

open Json (Raw Record)

namespace Json

def ofInt64 (n : Int64) : Json :=
  match Integer.ofInt? n.toInt with
  | some i => .number (.int i)
  | none => .null

def ofId? {kind : Kind} (id : Option (RealId kind)) : Json :=
  ofString? (id.map RealId.text)

def Raw.id? (kind : Kind) (raw : Raw) : Option (RealId kind) :=
  raw.string?.bind (RealId.ofText? kind)

def Raw.texts? (raw : Raw) : Option (SortedMap String String) :=
  (raw.members? Raw.string?).map SortedMap.ofList

end Json

namespace CollectionCategory

def toJson (c : CollectionCategory) : Json :=
  .object [("id", .string c.id.text), ("name", .string c.name), ("icon", .string c.icon),
    ("parentId", Json.ofId? c.parentId), ("createdAt", Json.ofInt64 c.createdAt)]

def ofRaw? (raw : Raw) : Option CollectionCategory := do
  let record ← Record.ofRaw? ["id", "name", "icon", "parentId", "createdAt"] raw
  let id ← record.required? "id" (Raw.id? .collectionCategory)
  let name ← record.required? "name" Raw.string?
  let icon ← record.required? "icon" Raw.string?
  let parentId ← record.nullable? "parentId" (Raw.id? .collectionCategory)
  let createdAt ← record.required? "createdAt" Raw.int64?
  return { id, name, icon, parentId, createdAt }

end CollectionCategory

namespace CollectionSettings

def toJson (s : CollectionSettings) : Json :=
  .object [("name", .string s.name), ("icon", .string s.icon),
    ("description", .string s.description), ("collectionCategoryId", Json.ofId? s.categoryId),
    ("defaultCollectionViewAppId", Json.ofId? s.defaultAppId)]

def ofRaw? (raw : Raw) : Option CollectionSettings := do
  let record ← Record.ofRaw?
    ["name", "icon", "description", "collectionCategoryId", "defaultCollectionViewAppId"] raw
  let name ← record.required? "name" Raw.string?
  let icon ← record.required? "icon" Raw.string?
  let description ← record.withDefault? "description" "" Raw.string?
  let categoryId ← record.nullable? "collectionCategoryId" (Raw.id? .collectionCategory)
  let defaultAppId ← record.nullable? "defaultCollectionViewAppId" (Raw.id? .app)
  return { name, icon, description, categoryId, defaultAppId }

end CollectionSettings

namespace VersionSettings

def toJson (s : VersionSettings) : Json :=
  .object (Json.optional "contentBlockingKeysGetter" (s.blockingKeysGetter.map .string) ++
    Json.optional "contentSummaryGetter" (s.summaryGetter.map .string))

def ofRaw? (raw : Raw) : Option VersionSettings := do
  let record ← Record.ofRaw? ["contentBlockingKeysGetter", "contentSummaryGetter"] raw
  let blockingKeysGetter ← record.optional? "contentBlockingKeysGetter" Raw.string?
  let summaryGetter ← record.optional? "contentSummaryGetter" Raw.string?
  return { blockingKeysGetter, summaryGetter }

end VersionSettings

namespace Collection

def toJson (c : Collection) : Json :=
  .object [("id", .string c.id.text), ("settings", c.settings.toJson), ("schema", c.schema.toJson),
    ("versionSettings", c.versionSettings.toJson), ("createdAt", Json.ofInt64 c.createdAt)]

def ofRaw? (raw : Raw) : Option Collection := do
  let record ← Record.ofRaw? ["id", "settings", "schema", "versionSettings", "createdAt"] raw
  let id ← record.required? "id" (Raw.id? .collection)
  let settings ← record.required? "settings" CollectionSettings.ofRaw?
  let schema ← record.required? "schema" Schema.ofRaw?
  let versionSettings ← record.withDefault? "versionSettings" {} VersionSettings.ofRaw?
  let createdAt ← record.required? "createdAt" Raw.int64?
  return { id, settings, schema, versionSettings, createdAt }

end Collection

namespace App

def toJson (a : App) : Json :=
  .object [("id", .string a.id.text), ("type", .string a.appType), ("name", .string a.name),
    ("targetCollectionIds", Json.ofStrings (a.targets.map RealId.text)),
    ("files", Json.ofEntries .string a.files.entries), ("createdAt", Json.ofInt64 a.createdAt)]

def ofRaw? (raw : Raw) : Option App := do
  let record ← Record.ofRaw?
    ["id", "type", "name", "targetCollectionIds", "files", "createdAt"] raw
  let id ← record.required? "id" (Raw.id? .app)
  let appType ← record.required? "type" Raw.string?
  let name ← record.required? "name" Raw.string?
  let targets ← record.required? "targetCollectionIds" (Raw.list? (Raw.id? .collection))
  let files ← record.withDefault? "files" SortedMap.empty Raw.texts?
  let createdAt ← record.required? "createdAt" Raw.int64?
  return { id, appType, name, targets, files, createdAt }

end App

namespace Document

def toJson (d : Document) : Json :=
  .object [("id", .string d.id.text), ("collectionId", .string d.collectionId.text),
    ("content", d.content), ("createdAt", Json.ofInt64 d.createdAt)]

def ofRaw? (raw : Raw) : Option Document := do
  let record ← Record.ofRaw? ["id", "collectionId", "content", "createdAt"] raw
  let id ← record.required? "id" (Raw.id? .document)
  let collectionId ← record.required? "collectionId" (Raw.id? .collection)
  let content ← record.required? "content" Raw.toJson?
  let createdAt ← record.required? "createdAt" Raw.int64?
  return { id, collectionId, content, createdAt }

end Document

namespace DocumentSpec

def toJson (d : DocumentSpec) : Json :=
  .object [("collectionId", .string d.collectionId.text), ("content", d.content)]

def ofRaw? (raw : Raw) : Option DocumentSpec := do
  let record ← Record.ofRaw? ["collectionId", "content"] raw
  let collectionId ← record.required? "collectionId" (Raw.id? .collection)
  let content ← record.required? "content" Raw.toJson?
  return { collectionId, content }

end DocumentSpec

namespace StoredFile

def toJson (f : StoredFile) : Json :=
  .object [("id", .string f.id.text), ("name", .string f.name), ("mimeType", .string f.mimeType),
    ("content", Json.ofList (fun byte => Json.ofNat byte.toNat) f.content),
    ("createdAt", Json.ofInt64 f.createdAt)]

def ofRaw? (raw : Raw) : Option StoredFile := do
  let record ← Record.ofRaw? ["id", "name", "mimeType", "content", "createdAt"] raw
  let id ← record.required? "id" (Raw.id? .file)
  let name ← record.required? "name" Raw.string?
  let mimeType ← record.required? "mimeType" Raw.string?
  let content ← record.required? "content" (Raw.list? Raw.byte?)
  let createdAt ← record.required? "createdAt" Raw.int64?
  return { id, name, mimeType, content, createdAt }

end StoredFile

def Entity.toJson : {kind : Kind} → Entity kind → Json
  | .collectionCategory, e => CollectionCategory.toJson e
  | .collection, e => Collection.toJson e
  | .app, e => App.toJson e
  | .document, e => Document.toJson e
  | .file, e => StoredFile.toJson e

def Entity.ofRaw? : (kind : Kind) → Raw → Option (Entity kind)
  | .collectionCategory, raw => CollectionCategory.ofRaw? raw
  | .collection, raw => Collection.ofRaw? raw
  | .app, raw => App.ofRaw? raw
  | .document, raw => Document.ofRaw? raw
  | .file, raw => StoredFile.ofRaw? raw

namespace PackInfo

def toJson (i : PackInfo) : Json :=
  .object ([("name", .string i.name), ("description", .string i.description)] ++
    Json.optional "version" (i.version.map .string))

def ofRaw? (raw : Raw) : Option PackInfo := do
  let record ← Record.ofRaw? ["name", "description", "version"] raw
  let name ← record.required? "name" Raw.string?
  let description ← record.withDefault? "description" "" Raw.string?
  let version ← record.optional? "version" Raw.string?
  return { name, description, version }

end PackInfo

namespace CategorySpec

def toJson (c : CategorySpec) : Json :=
  .object [("name", .string c.name), ("icon", .string c.icon), ("parentId", Json.ofString? c.parentId)]

def ofRaw? (raw : Raw) : Option CategorySpec := do
  let record ← Record.ofRaw? ["name", "icon", "parentId"] raw
  let name ← record.required? "name" Raw.string?
  let icon ← record.required? "icon" Raw.string?
  let parentId ← record.optional? "parentId" Raw.string?
  return { name, icon, parentId }

end CategorySpec

namespace SettingsSpec

def toJson (s : SettingsSpec) : Json :=
  .object [("name", .string s.name), ("icon", .string s.icon),
    ("description", .string s.description), ("collectionCategoryId", Json.ofString? s.categoryId),
    ("defaultCollectionViewAppId", Json.ofString? s.defaultAppId)]

def ofRaw? (raw : Raw) : Option SettingsSpec := do
  let record ← Record.ofRaw?
    ["name", "icon", "description", "collectionCategoryId", "defaultCollectionViewAppId"] raw
  let name ← record.required? "name" Raw.string?
  let icon ← record.required? "icon" Raw.string?
  let description ← record.withDefault? "description" "" Raw.string?
  let categoryId ← record.optional? "collectionCategoryId" Raw.string?
  let defaultAppId ← record.optional? "defaultCollectionViewAppId" Raw.string?
  return { name, icon, description, categoryId, defaultAppId }

end SettingsSpec

namespace CollectionSpec

def toJson (c : CollectionSpec) : Json :=
  .object [("settings", c.settings.toJson), ("schema", c.schema.toJson),
    ("versionSettings", c.versionSettings.toJson)]

def ofRaw? (raw : Raw) : Option CollectionSpec := do
  let record ← Record.ofRaw? ["settings", "schema", "versionSettings"] raw
  let settings ← record.required? "settings" SettingsSpec.ofRaw?
  let schema ← record.required? "schema" Schema.ofRaw?
  let versionSettings ← record.withDefault? "versionSettings" {} VersionSettings.ofRaw?
  return { settings, schema, versionSettings }

end CollectionSpec

namespace AppSpec

def toJson (a : AppSpec) : Json :=
  .object [("type", .string a.appType), ("name", .string a.name),
    ("targetCollectionIds", Json.ofStrings a.targets),
    ("files", Json.ofEntries .string a.files.entries)]

def ofRaw? (raw : Raw) : Option AppSpec := do
  let record ← Record.ofRaw? ["type", "name", "targetCollectionIds", "files"] raw
  let appType ← record.required? "type" Raw.string?
  let name ← record.required? "name" Raw.string?
  let targets ← record.withDefault? "targetCollectionIds" [] (Raw.list? Raw.string?)
  let files ← record.withDefault? "files" SortedMap.empty Raw.texts?
  return { appType, name, targets, files }

end AppSpec

namespace PackDocumentSpec

def toJson (d : PackDocumentSpec) : Json :=
  .object [("collectionId", .string d.collectionId), ("content", d.content)]

def ofRaw? (raw : Raw) : Option PackDocumentSpec := do
  let record ← Record.ofRaw? ["collectionId", "content"] raw
  let collectionId ← record.required? "collectionId" Raw.string?
  let content ← record.required? "content" Raw.toJson?
  return { collectionId, content }

end PackDocumentSpec

namespace Pack

def toJson (p : Pack) : Json :=
  .object [("id", .string p.id), ("info", p.info.toJson),
    ("collectionCategories", Json.ofList CategorySpec.toJson p.categories),
    ("collections", Json.ofList CollectionSpec.toJson p.collections),
    ("apps", Json.ofList AppSpec.toJson p.apps),
    ("documents", Json.ofList PackDocumentSpec.toJson p.documents)]

def ofRaw? (raw : Raw) : Option Pack := do
  let record ← Record.ofRaw?
    ["id", "info", "collectionCategories", "collections", "apps", "documents"] raw
  let id ← record.required? "id" Raw.string?
  let info ← record.withDefault? "info" {} PackInfo.ofRaw?
  let categories ← record.withDefault? "collectionCategories" [] (Raw.list? CategorySpec.ofRaw?)
  let collections ← record.withDefault? "collections" [] (Raw.list? CollectionSpec.ofRaw?)
  let apps ← record.withDefault? "apps" [] (Raw.list? AppSpec.ofRaw?)
  let documents ← record.withDefault? "documents" [] (Raw.list? PackDocumentSpec.ofRaw?)
  return { id, info, categories, collections, apps, documents }

end Pack

namespace PackInstallation

def toJson (i : PackInstallation) : Json :=
  .object [("collectionCategories", Json.ofList CollectionCategory.toJson i.categories),
    ("collections", Json.ofList Collection.toJson i.collections),
    ("apps", Json.ofList App.toJson i.apps), ("documents", Json.ofList Document.toJson i.documents)]

def ofRaw? (raw : Raw) : Option PackInstallation := do
  let record ← Record.ofRaw? ["collectionCategories", "collections", "apps", "documents"] raw
  let categories ← record.required? "collectionCategories" (Raw.list? CollectionCategory.ofRaw?)
  let collections ← record.required? "collections" (Raw.list? Collection.ofRaw?)
  let apps ← record.required? "apps" (Raw.list? App.ofRaw?)
  let documents ← record.required? "documents" (Raw.list? Document.ofRaw?)
  return { categories, collections, apps, documents }

end PackInstallation

end ContentStore

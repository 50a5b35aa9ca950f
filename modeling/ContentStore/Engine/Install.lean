import ContentStore.Engine.Collections
import ContentStore.Engine.Documents
import ContentStore.Engine.PackCheck

/-!
# Installing packs

A pack with issues is refused. Collections, apps and documents get their ids first, so that references
may go in any direction; a category has its id only once it is created. Then all entities are created in
one transaction, with the references between them resolved.
-/

namespace ContentStore

/-- The ids given to the entries of a pack before anything is created. -/
structure PackIds where
  collections : List CollectionId
  apps : List AppId
  documents : List DocumentId

namespace Operation

def resolveId (kind : Kind) (mapping : IdMapping) (text : String) : Operation (RealId kind) :=
  ofExcept .invalidId (RealId.parse kind (mapping.resolve text))

def resolveOptional (kind : Kind) (mapping : IdMapping) :
    Option String → Operation (Option (RealId kind))
  | none => return none
  | some text => do return some (← resolveId kind mapping text)

def idsFor (pack : Pack) : Operation PackIds := do
  let collections ← freshFor .collection pack.collections
  let apps ← freshFor .app pack.apps
  let documents ← freshFor .document pack.documents
  return { collections, apps, documents }

/-- The resolution by the given ids; no category is known yet. -/
def resolutionBy (ids : PackIds) : Resolution where
  collections := IdMapping.ofIds ids.collections
  apps := IdMapping.ofIds ids.apps
  documents := IdMapping.ofIds ids.documents

def pendingFor (pack : Pack) (ids : PackIds) (resolution : Resolution) : Operation Pending := do
  let owners ← pack.documents.mapM fun spec =>
    resolveId .collection resolution.collections spec.collectionId
  return { collections := ids.collections, apps := ids.apps, documents := ids.documents.zip owners }

/-- Creates the categories of a pack, each known to those after it. -/
def newPackCategories (mapping : IdMapping) :
    Nat → List CategorySpec → Operation (List CollectionCategory × IdMapping)
  | _, [] => return ([], mapping)
  | index, spec :: rest => do
      let parentId ← resolveOptional .collectionCategory mapping spec.parentId
      let category ← newCategory spec.name spec.icon parentId
      let (categories, mapping) ←
        newPackCategories (mapping.insert index category.id.text) (index + 1) rest
      return (category :: categories, mapping)

def resolveSettings (resolution : Resolution) (settings : SettingsSpec) :
    Operation CollectionSettings := do
  let categoryId ← resolveOptional .collectionCategory resolution.categories settings.categoryId
  let defaultAppId ← resolveOptional .app resolution.apps settings.defaultAppId
  return {
    name := settings.name
    icon := settings.icon
    description := settings.description
    categoryId
    defaultAppId }

def newPackCollection (pending : Pending) (resolution : Resolution) (id : CollectionId)
    (spec : CollectionSpec) : Operation Collection := do
  let settings ← resolveSettings resolution spec.settings
  let schema := spec.schema.resolveCollections resolution.collections
  newCollection pending id settings schema spec.versionSettings

def newPackApp (pending : Pending) (resolution : Resolution) (id : AppId) (spec : AppSpec) :
    Operation App := do
  let targets ← spec.targets.mapM (resolveId .collection resolution.collections)
  newApp pending id spec.appType spec.name targets spec.files

def newPackDocument (validator : Validator) (pending : Pending) (resolution : Resolution)
    (id : DocumentId) (spec : PackDocumentSpec) : Operation Document := do
  let collectionId ← resolveId .collection resolution.collections spec.collectionId
  newResolvedDocument validator pending resolution id collectionId spec.content

def newPack (validator : Validator) (pack : Pack) : Operation PackInstallation := do
  let ids ← idsFor pack
  let resolution := resolutionBy ids
  let pending ← pendingFor pack ids resolution
  let (categories, known) ← newPackCategories resolution.categories 0 pack.categories
  let resolution := { resolution with categories := known }
  let collections ← (ids.collections.zip pack.collections).mapM fun (id, spec) =>
    newPackCollection pending resolution id spec
  let apps ← (ids.apps.zip pack.apps).mapM fun (id, spec) =>
    newPackApp pending resolution id spec
  let documents ← (ids.documents.zip pack.documents).mapM fun (id, spec) =>
    newPackDocument validator pending resolution id spec
  return { categories, collections, apps, documents }

end Operation

namespace Engine

def validatePack (engine : Engine) (pack : Pack) : List Issue :=
  pack.issues engine.config.maxPackEntities

/-- Installs a pack, all of it or nothing. -/
def installPack (engine : Engine) (pack : Pack) : Except EngineError PackInstallation × Engine :=
  match engine.validatePack pack with
  | [] => engine.run (Operation.newPack engine.validator pack)
  | issues => (.error (.packNotValid issues), engine)

end Engine

end ContentStore

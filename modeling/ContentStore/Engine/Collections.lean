import ContentStore.Content.Reference
import ContentStore.Engine.Operation

/-!
# Creating categories, collections and apps

Everything that a new entity refers to must exist: be committed, be staged by the same operation, or be
pending in it.
-/

namespace ContentStore

inductive SchemaFault where
  | rootNotStruct (found : DataType)
  | notACollectionId (typeName id : String)

namespace SchemaFault

def issue : SchemaFault → Issue
  | .rootNotStruct found =>
      ⟨.schema, "Invalid root type: Expected Struct but received " ++ found.name, [.name "rootType"]⟩
  | .notACollectionId typeName id =>
      ⟨.schema, "Invalid DocumentRef: \"" ++ id ++ "\" is not a collection id",
        [.name "types", .name typeName, .name "collectionId"]⟩

end SchemaFault

namespace Schema

/-- The faults of a collection's schema: its root must be a struct and every fixed collection an id. -/
def collectionFaults (schema : Schema) : Except StructureError (List SchemaFault) := do
  schema.checkStructure
  let root ← schema.resolvedRoot
  let rootFaults :=
    if root.dataType = .struct then [] else [SchemaFault.rootNotStruct root.dataType]
  let idFaults := schema.fixedCollectionIds.filterMap fun (typeName, id) =>
    if RealId.shaped .collection id then none else some (SchemaFault.notACollectionId typeName id)
  return rootFaults ++ idFaults

end Schema

namespace Operation

def requireCategory (id : Option CollectionCategoryId) : Operation Unit := do
  if let some id := id then
    unless ← present .collectionCategory id do
      throw (.categoryNotFound id.text)

def requireCollection (pending : Pending) (id : CollectionId) : Operation Unit := do
  unless pending.collections.contains id do
    unless ← present .collection id do
      throw (.collectionNotFound id.text)

/-- Fails unless an optional id names an app that exists or is pending. -/
def requireApp (pending : Pending) (id : Option AppId) : Operation Unit := do
  if let some id := id then
    unless pending.apps.contains id do
      unless ← present .app id do
        throw (.appNotFound id.text)

def newCategory (name icon : String) (parentId : Option CollectionCategoryId) :
    Operation CollectionCategory := do
  requireCategory parentId
  createCategory name icon parentId

/-- Creates a collection under a given id, which its schema may name by the sign for its own. -/
def newCollection (pending : Pending) (id : CollectionId) (settings : CollectionSettings)
    (schema : Schema) (versionSettings : VersionSettings) : Operation Collection := do
  let schema := schema.resolveSelf id
  let faults ← ofExcept .brokenSchema schema.collectionFaults
  unless faults.isEmpty do
    throw (.collectionSchemaNotValid (faults.map SchemaFault.issue))
  requireCategory settings.categoryId
  requireApp pending settings.defaultAppId
  let collection : Collection := { id, settings, schema, versionSettings, createdAt := ← now }
  @insert .collection collection
  return collection

def newApp (pending : Pending) (id : AppId) (appType name : String) (targets : List CollectionId)
    (files : SortedMap String String) : Operation App := do
  targets.forM (requireCollection pending)
  let app : App := { id, appType, name, targets, files, createdAt := ← now }
  @insert .app app
  return app

end Operation

namespace Engine

def createCategory (engine : Engine) (name icon : String) (parentId : Option CollectionCategoryId) :
    Except EngineError CollectionCategory × Engine :=
  engine.run (Operation.newCategory name icon parentId)

def createCollection (engine : Engine) (settings : CollectionSettings) (schema : Schema)
    (versionSettings : VersionSettings) : Except EngineError Collection × Engine :=
  engine.run do
    let id ← Operation.fresh .collection
    Operation.newCollection {} id settings schema versionSettings

def createApp (engine : Engine) (appType name : String) (targets : List CollectionId)
    (files : SortedMap String String) : Except EngineError App × Engine :=
  engine.run do
    let id ← Operation.fresh .app
    Operation.newApp {} id appType name targets files

end Engine

end ContentStore

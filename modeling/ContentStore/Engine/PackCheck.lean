import ContentStore.Content.Reference
import ContentStore.Entity.Pack

/-!
# Checking the references of a pack

Every reference of a pack must be an id of the right kind or the proto id of an entry of the right kind.
A category's parent must come before it, since categories are created in order. Whether the entities
named by ids exist is not asked here.
-/

namespace ContentStore

inductive PackFault where
  | tooLarge (count max : Nat)
  | notAnId (kind : Kind) (text : String)
  | otherKind (kind : Kind) (found : ProtoId)
  | outOfRange (found : ProtoId) (count : Nat)
  | parentNotBefore (parent : String) (index : Nat)
  | notOfThisPack (text : String)
  | schemaStructure (error : StructureError)

namespace PackFault

def message : PackFault → String
  | .tooLarge count max =>
      "Pack holds " ++ toString count ++ " entities; at most " ++ toString max ++ " are allowed"
  | .notAnId kind text => "Invalid reference: \"" ++ text ++ "\" is not a " ++ kind.name ++ " id"
  | .otherKind kind found =>
      "Invalid reference: Expected a " ++ kind.name ++ " id but received \"" ++ found.text ++ "\""
  | .outOfRange found count =>
      "Invalid reference: \"" ++ found.text ++ "\" does not match any of the " ++ toString count ++
        " " ++ found.kind.name ++ " entries of the pack"
  | .parentNotBefore parent index =>
      "Invalid reference: \"" ++ parent ++ "\" must reference a category declared before index " ++
        toString index
  | .notOfThisPack text =>
      "Invalid reference: \"" ++ text ++ "\" is not a collection of this pack"
  | .schemaStructure error => error.message

def issue (fault : PackFault) (path : Path) : Issue :=
  ⟨.validation, fault.message, path⟩

end PackFault

namespace Pack

def referenceFault? (pack : Pack) (kind : Kind) (text : String) : Option PackFault :=
  match ProtoId.ofText? text with
  | some p =>
      if p.kind ≠ kind then some (.otherKind kind p)
      else if pack.count kind ≤ p.index then some (.outOfRange p (pack.count kind))
      else none
  | none => if RealId.shaped kind text then none else some (.notAnId kind text)

def parentFault? (pack : Pack) (index : Nat) (text : String) : Option PackFault :=
  match ProtoId.ofKind? .collectionCategory text with
  | some p => if index ≤ p.index then some (.parentNotBefore text index) else none
  | none => pack.referenceFault? .collectionCategory text

def issueAt (path : Path) (fault : Option PackFault) : List Issue :=
  (fault.map fun fault => fault.issue path).toList

def optionalIssue (pack : Pack) (kind : Kind) (path : Path) (text : Option String) : List Issue :=
  issueAt path (text.bind (pack.referenceFault? kind))

def sizeIssues (pack : Pack) (maxEntities : Nat) : List Issue :=
  issueAt [] (if maxEntities < pack.entityCount then some (.tooLarge pack.entityCount maxEntities)
    else none)

def categoryIssues (pack : Pack) (index : Nat) (spec : CategorySpec) : List Issue :=
  issueAt [.name "collectionCategories", .index index, .name "parentId"]
    (spec.parentId.bind (pack.parentFault? index))

def structureFault? (schema : Schema) : Option PackFault :=
  match schema.checkStructure with
  | .ok _ => none
  | .error error => some (.schemaStructure error)

/-- The issues of a collection: its settings, its schema's structure, the collections that it fixes. -/
def collectionIssues (pack : Pack) (index : Nat) (spec : CollectionSpec) : List Issue :=
  let place (steps : Path) : Path := .name "collections" :: .index index :: steps
  pack.optionalIssue .collectionCategory
      (place [.name "settings", .name "collectionCategoryId"]) spec.settings.categoryId ++
    pack.optionalIssue .app
      (place [.name "settings", .name "defaultCollectionViewAppId"]) spec.settings.defaultAppId ++
    issueAt (place [.name "schema"]) (structureFault? spec.schema) ++
    spec.schema.fixedCollectionIds.flatMap fun (typeName, id) =>
      issueAt (place [.name "schema", .name "types", .name typeName, .name "collectionId"])
        (if id = selfCollection then none else pack.referenceFault? .collection id)

def appIssues (pack : Pack) (index : Nat) (spec : AppSpec) : List Issue :=
  spec.targets.zipIdx.flatMap fun (id, place) =>
    issueAt [.name "apps", .index index, .name "targetCollectionIds", .index place]
      (pack.referenceFault? .collection id)

def collectionOf? (pack : Pack) (spec : PackDocumentSpec) : Option CollectionSpec :=
  (ProtoId.ofKind? .collection spec.collectionId).bind fun p => pack.collections[p.index]?

/-- The issues of a document: its collection must be one of the pack's, whose schema then says where the
content holds references. A schema that cannot be used is reported with its collection. -/
def documentIssues (pack : Pack) (index : Nat) (spec : PackDocumentSpec) : List Issue :=
  match pack.collectionOf? spec with
  | none =>
      issueAt [.name "documents", .index index, .name "collectionId"]
        (some (.notOfThisPack spec.collectionId))
  | some collection =>
      match collection.schema.contentReferences spec.content with
      | .error _ => []
      | .ok references =>
          references.flatMap fun reference =>
            issueAt (.name "documents" :: .index index :: .name "content" :: reference.path)
              (pack.referenceFault? reference.expected reference.value)

def issues (pack : Pack) (maxEntities : Nat) : List Issue :=
  pack.sizeIssues maxEntities ++
    (pack.categories.zipIdx.flatMap fun (spec, index) => pack.categoryIssues index spec) ++
    (pack.collections.zipIdx.flatMap fun (spec, index) => pack.collectionIssues index spec) ++
    (pack.apps.zipIdx.flatMap fun (spec, index) => pack.appIssues index spec) ++
    pack.documents.zipIdx.flatMap fun (spec, index) => pack.documentIssues index spec

end Pack

end ContentStore

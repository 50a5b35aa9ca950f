import ContentStore.Proofs.Engine.Kept
import ContentStore.Proofs.Engine.Write
import ContentStore.Proofs.Id.Denotes
import ContentStore.Proofs.Schema.CollectionIds

/-!
# What an installed pack looks like

Every entity that a pack installs is its entry with the references replaced by the ids that they denote.
No reference is left that stands for a position or for the collection that it is in.
-/

namespace ContentStore

def PackInstallation.ids (installed : PackInstallation) : (kind : Kind) → List (RealId kind)
  | .collectionCategory => installed.categories.map CollectionCategory.id
  | .collection => installed.collections.map Collection.id
  | .app => installed.apps.map App.id
  | .document => installed.documents.map Document.id
  | .file => []

/-- What a visited value of a pack's content becomes: a document reference with the two ids that its own
denote and all else as it was, or a file that is stored if it was new. -/
inductive Becomes (installed : PackInstallation) (files : List StoredFile) :
    Definition → Json → Json → Prop where
  | reference {fixed : Option String} {members changed : List (String × Json)}
      {collectionText documentText : String} {collection : CollectionId} {document : DocumentId}
      (keys : Entries.keys changed = Entries.keys members)
      (others : ∀ key, key ≠ "collectionId" → key ≠ "documentId" →
        changed.lookup key = members.lookup key)
      (collectionBefore : members.lookup "collectionId" = some (.string collectionText))
      (collectionAfter : changed.lookup "collectionId" = some (.string collection.text))
      (collectionDenoted : Denotes (installed.ids .collection) collectionText collection)
      (documentBefore : members.lookup "documentId" = some (.string documentText))
      (documentAfter : changed.lookup "documentId" = some (.string document.text))
      (documentDenoted : Denotes (installed.ids .document) documentText document) :
      Becomes installed files (.documentRef fixed) (.object members) (.object changed)
  | file {accept : Option (SortedMap String (List String))} {value value' : Json}
      (placed : Placed files (.file accept) value value') :
      Becomes installed files (.file accept) value value'

theorem Becomes.keepsNonnull (installed : PackInstallation) (files : List StoredFile) :
    KeepsNonnull (Becomes installed files) := by
  intro d value value' hn h
  cases h with
  | reference => exact Json.noConfusion
  | file placed => exact Placed.keepsNonnull files hn placed

/-- A category as its entry says, under the parent that the entry denotes. -/
structure CategorySpec.Matches (installed : PackInstallation) (spec : CategorySpec)
    (category : CollectionCategory) : Prop where
  name : category.name = spec.name
  icon : category.icon = spec.icon
  parentId : Option.Rel (Denotes (installed.ids .collectionCategory)) spec.parentId category.parentId

/-- Settings as an entry says, with the category and the app that it denotes. -/
structure SettingsSpec.Matches (installed : PackInstallation) (spec : SettingsSpec)
    (settings : CollectionSettings) : Prop where
  name : settings.name = spec.name
  icon : settings.icon = spec.icon
  description : settings.description = spec.description
  categoryId : Option.Rel (Denotes (installed.ids .collectionCategory)) spec.categoryId
    settings.categoryId
  defaultAppId : Option.Rel (Denotes (installed.ids .app)) spec.defaultAppId settings.defaultAppId

/-- A schema in which each fixed collection id is replaced by the id of the collection itself, where it
was the sign for it, or else by the id that it denotes; nothing else is different. -/
def SchemaMatches (installed : PackInstallation) (own : CollectionId) (schema schema' : Schema) : Prop :=
  ∃ f : String → String, schema' = schema.mapCollectionIds f ∧
    ∀ entry ∈ schema.fixedCollectionIds,
      (entry.2 = selfCollection ∧ f entry.2 = own.text) ∨
        ∃ id, Denotes (installed.ids .collection) entry.2 id ∧ f entry.2 = id.text

structure CollectionSpec.Matches (installed : PackInstallation) (spec : CollectionSpec)
    (collection : Collection) : Prop where
  settings : spec.settings.Matches installed collection.settings
  schema : SchemaMatches installed collection.id spec.schema collection.schema
  versionSettings : collection.versionSettings = spec.versionSettings
  noPlaceholder : ∀ entry ∈ collection.schema.fixedCollectionIds, ¬ ProtoId.Placeholder entry.2

/-- An app as its entry says, for the collections that the entry denotes. -/
structure AppSpec.Matches (installed : PackInstallation) (spec : AppSpec) (app : App) : Prop where
  appType : app.appType = spec.appType
  name : app.name = spec.name
  targets : List.Forall₂ (Denotes (installed.ids .collection)) spec.targets app.targets
  files : app.files = spec.files

/-- A document as its entry says, in the collection that the entry denotes. Along the schema of that
collection its content differs from the entry's only in document references and new files. -/
structure PackDocumentSpec.Matches (t : Tables) (installed : PackInstallation) (spec : PackDocumentSpec)
    (document : Document) : Prop where
  collectionId : Denotes (installed.ids .collection) spec.collectionId document.collectionId
  content : ∃ (collection : Collection) (root : Definition) (files : List StoredFile),
    t.get? .collection document.collectionId = some collection ∧ collection.schema.root = .ok root ∧
      (∀ file ∈ files, file ∈ t.files) ∧
      Rewrites collection.schema (Becomes installed files) root spec.content document.content
  noPlaceholder : ∃ (collection : Collection) (references : List IdReference),
    t.get? .collection document.collectionId = some collection ∧
      collection.schema.contentReferences document.content = .ok references ∧
      ∀ reference ∈ references, ¬ ProtoId.Placeholder reference.value

/-- One entity for each entry of a pack, in order and as the entry says. -/
structure Pack.Matches (pack : Pack) (t : Tables) (installed : PackInstallation) : Prop where
  categories : List.Forall₂ (CategorySpec.Matches installed) pack.categories installed.categories
  collections : List.Forall₂ (CollectionSpec.Matches installed) pack.collections installed.collections
  apps : List.Forall₂ (AppSpec.Matches installed) pack.apps installed.apps
  documents : List.Forall₂ (PackDocumentSpec.Matches t installed) pack.documents installed.documents

/-- What a visit finds answered holds no placeholder. -/
theorem Tables.Answers.noPlaceholder {t : Tables} {visit : Visit} (h : t.Answers visit) :
    ∀ reference ∈ visit.references, ¬ ProtoId.Placeholder reference.value := by
  intro reference hmem
  unfold Visit.references at hmem
  split at hmem
  · next hd =>
      obtain ⟨found, hfound, target, -, hdocument, hcollection⟩ := h.document hd
      obtain ⟨hcText, hdText⟩ := Visit.texts_of_documentReference? hfound
      simp only [referenceKeys, List.filterMap_cons, List.filterMap_nil, hcText, hdText, Option.map_some,
        List.mem_cons, List.not_mem_nil, or_false] at hmem
      rcases hmem with rfl | rfl
      · rw [hcollection]
        exact target.collectionId.not_placeholder
      · rw [hdocument]
        exact target.id.not_placeholder
  · cases hmem

theorem Tables.Carries.noPlaceholder {t : Tables} {document : Document} (h : t.Carries document) :
    ∃ (collection : Collection) (references : List IdReference),
      t.get? .collection document.collectionId = some collection ∧
        collection.schema.contentReferences document.content = .ok references ∧
        ∀ reference ∈ references, ¬ ProtoId.Placeholder reference.value := by
  obtain ⟨collection, visits, hget, hvisits, hanswers⟩ := h
  refine ⟨collection, visits.flatMap Visit.references, hget, ?_, fun reference hmem => ?_⟩
  · rw [Schema.contentReferences, hvisits]
    rfl
  · obtain ⟨visit, hvisit, hreference⟩ := List.mem_flatMap.1 hmem
    exact (hanswers visit hvisit).noPlaceholder reference hreference

/-- Each category's parent denotes one of the categories before it, or a stored one, and the mapping that
is left lists all of them. -/
theorem CategoriesResolved.denotes {mapping known : IdMapping} {index : Nat} {specs : List CategorySpec}
    {categories : List CollectionCategory} {done : List CollectionCategoryId}
    (h : CategoriesResolved mapping index specs categories known) (hl : mapping.Lists done)
    (hi : done.length = index) :
    known.Lists (done ++ categories.map CollectionCategory.id) ∧
      List.Forall₂ (fun spec category =>
        Option.Rel (Denotes (done ++ categories.map CollectionCategory.id)) spec.parentId
          category.parentId) specs categories := by
  induction h generalizing done with
  | nil => exact ⟨by simpa using hl, .nil⟩
  | @cons mapping known index spec category specs categories parent _ ih =>
      subst hi
      obtain ⟨hknown, hrest⟩ := ih (hl.insert category.id) (by simp)
      rw [List.append_assoc, List.singleton_append] at hknown hrest
      have hparent := IdMapping.rel_of_resolve hl parent
      exact ⟨hknown, .cons (rel_denotes_append hparent _) hrest⟩

/-- A resolved and faultless schema has each fixed id replaced by what it stands for. -/
theorem schemaMatches_of_resolved {installed : PackInstallation} {mapping : IdMapping} {own : CollectionId}
    {schema schema' : Schema} (hl : mapping.Lists (installed.ids .collection))
    (hs : schema' = (schema.resolveCollections mapping).resolveSelf own)
    (hf : schema'.collectionFaults = .ok []) : SchemaMatches installed own schema schema' := by
  have hmap : schema' = schema.mapCollectionIds (own.orSelf ∘ mapping.resolve) :=
    hs.trans (schema.mapCollectionIds_mapCollectionIds mapping.resolve own.orSelf)
  refine ⟨own.orSelf ∘ mapping.resolve, hmap, fun entry hentry => ?_⟩
  have himage : (entry.1, own.orSelf (mapping.resolve entry.2)) ∈ schema'.fixedCollectionIds := by
    rw [hmap, Schema.fixedCollectionIds_mapCollectionIds]
    exact List.mem_map.2 ⟨entry, hentry, rfl⟩
  obtain ⟨id, hid⟩ := Schema.exists_id_of_faultless hf himage
  by_cases hself : mapping.resolve entry.2 = selfCollection
  · -- Only the sign itself resolves to the sign: everything listed is the id of a collection.
    rcases IdMapping.resolve_cases hl entry.2 with hsame | ⟨other, hother⟩
    · exact .inl ⟨hsame.symm.trans hself, (congrArg own.orSelf hself).trans own.orSelf_self⟩
    · exact absurd (hother.symm.trans hself) other.text_ne_self
  · have hresolved : mapping.resolve entry.2 = id.text := (own.orSelf_of_ne hself).symm.trans hid
    exact .inr ⟨id, (IdMapping.resolve_eq_iff hl).1 hresolved, hid⟩

/-- A resolved document reference that names entities by their ids holds what the reference denotes. -/
theorem becomes_reference {installed : PackInstallation} {files : List StoredFile} {resolution : Resolution}
    (hcollections : resolution.collections.Lists (installed.ids .collection))
    (hdocuments : resolution.documents.Lists (installed.ids .document)) {fixed : Option String}
    {path : Path} {value value' : Json} {collection : CollectionId} {document : DocumentId}
    (hturns : resolution.Turns (.documentRef fixed) value value')
    (hcollection : Visit.text? ⟨.documentRef fixed, path, value'⟩ "collectionId" = some collection.text)
    (hdocument : Visit.text? ⟨.documentRef fixed, path, value'⟩ "documentId" = some document.text) :
    Becomes installed files (.documentRef fixed) value value' := by
  obtain ⟨changed, hvalue, hc⟩ := Visit.text?_eq_some_iff.1 hcollection
  obtain ⟨_, hvalue', hd⟩ := Visit.text?_eq_some_iff.1 hdocument
  cases hvalue.symm.trans hvalue'
  cases value with
  | object members =>
      have hchanged : changed = members.map resolution.resolveMember :=
        Json.object.inj (hvalue.symm.trans hturns)
      rw [hchanged] at hc hd
      have hcKey : resolution.forKey? "collectionId" = some resolution.collections := rfl
      have hdKey : resolution.forKey? "documentId" = some resolution.documents := rfl
      obtain ⟨collectionText, hcText, hcId⟩ := Resolution.exists_text_of_lookup hcKey hc
      obtain ⟨documentText, hdText, hdId⟩ := Resolution.exists_text_of_lookup hdKey hd
      rw [show value' = .object (members.map resolution.resolveMember) from hturns]
      exact .reference (resolution.keys_map_resolveMember members)
        (fun key hc hd => Resolution.lookup_of_other_key hc hd members) hcText hc
        ((IdMapping.resolve_eq_iff hcollections).1 hcId) hdText hd
        ((IdMapping.resolve_eq_iff hdocuments).1 hdId)
  | _ => cases hvalue.symm.trans hturns

theorem becomes_of_resolved {installed : PackInstallation} {validator : Validator} {pending : Pending}
    {resolution : Resolution} {id : DocumentId} {collectionId : CollectionId} {handedIn : Json}
    {final : Tables} {document : Document} {files : List StoredFile} {visits : List Visit}
    {collection : Collection} {content : Json}
    (hcollections : resolution.collections.Lists (installed.ids .collection))
    (hdocuments : resolution.documents.Lists (installed.ids .document))
    (h : ResolvedDocumentAdded validator pending resolution id collectionId handedIn final document
      files visits collection content) :
    ∃ root, collection.schema.root = .ok root ∧
      Rewrites collection.schema (Becomes installed files) root handedIn document.content := by
  obtain ⟨root, -, hroot, -, hresolved⟩ := Schema.rewrites_of_resolveContent h.content_eq
  obtain ⟨root', hroot', hplaced⟩ := h.added.placed
  cases hroot.symm.trans hroot'
  have hissues := Validator.leafIssues_of_mem_visitContent h.added.valid h.added.visited
  refine ⟨root, hroot, (hresolved.comp resolution.turns_keepsNonnull hplaced).mono ?_⟩
  rintro d value value' hd hn ⟨middle, hturns, ⟨path, hvisited⟩, hput⟩
  cases d with
  | documentRef fixed =>
      cases hput.eq_of_not_isFile (by simp [Definition.dataType])
      obtain ⟨reference, href⟩ := Validator.exists_documentReference rfl (hissues _ hvisited)
      obtain ⟨target, owner, htarget, howner, -⟩ :=
        h.added.found.documents reference (List.mem_filterMap.2 ⟨_, hvisited, href⟩)
      obtain ⟨hcollection, hdocument⟩ := Visit.texts_of_documentReference? href
      rw [howner] at hcollection
      rw [htarget] at hdocument
      exact becomes_reference hcollections hdocuments hturns hcollection hdocument
  | file accept =>
      cases hturns.eq_of_not_documentRef (by simp [Definition.dataType])
      exact .file hput
  | _ => cases hd

namespace PackAdded

variable {validator : Validator} {pack : Pack} {final added : Tables} {installed : PackInstallation}
  {ids : PackIds} {pending : Pending} {known : IdMapping} {stored : List (Document × List StoredFile)}

theorem ids_collection (h : PackAdded validator pack final installed added ids pending known stored) :
    installed.ids .collection = ids.collections :=
  map_eq_of_zip h.fit.collections (h.collections.imp fun _ _ hc => hc.added.id_eq)

theorem ids_app (h : PackAdded validator pack final installed added ids pending known stored) :
    installed.ids .app = ids.apps :=
  map_eq_of_zip h.fit.apps (h.apps.imp fun _ _ ha => ha.added.id_eq)

theorem ids_document (h : PackAdded validator pack final installed added ids pending known stored) :
    installed.ids .document = ids.documents := by
  have hdocuments : stored.map (fun entry => entry.1.id) = ids.documents :=
    map_eq_of_zip h.fit.documents (h.documents.imp fun _ _ hd => hd.added.id_eq)
  rw [← hdocuments, PackInstallation.ids, h.documents_eq, List.map_map]
  rfl

/-- The resolution that a pack is installed by lists the ids of the installed entities. -/
theorem lists_categories (h : PackAdded validator pack final installed added ids pending known stored) :
    (ids.resolution known).categories.Lists (installed.ids .collectionCategory) :=
  (h.parents.denotes (IdMapping.lists_empty _) rfl).1

theorem lists_collections (h : PackAdded validator pack final installed added ids pending known stored) :
    (ids.resolution known).collections.Lists (installed.ids .collection) := by
  rw [h.ids_collection]
  exact IdMapping.lists_ofIds ids.collections

theorem lists_apps (h : PackAdded validator pack final installed added ids pending known stored) :
    (ids.resolution known).apps.Lists (installed.ids .app) := by
  rw [h.ids_app]
  exact IdMapping.lists_ofIds ids.apps

theorem lists_documents (h : PackAdded validator pack final installed added ids pending known stored) :
    (ids.resolution known).documents.Lists (installed.ids .document) := by
  rw [h.ids_document]
  exact IdMapping.lists_ofIds ids.documents

theorem matches_categories (h : PackAdded validator pack final installed added ids pending known stored) :
    List.Forall₂ (CategorySpec.Matches installed) pack.categories installed.categories := by
  have hparents := (h.parents.denotes (IdMapping.lists_empty _) rfl).2
  have hboth := h.categories.mp (fun spec category ha hp => (⟨ha, hp⟩ : _ ∧ _)) hparents
  exact hboth.imp fun spec category ⟨hadded, hparent⟩ => ⟨hadded.name_eq, hadded.icon_eq, hparent⟩

theorem matches_apps (h : PackAdded validator pack final installed added ids pending known stored) :
    List.Forall₂ (AppSpec.Matches installed) pack.apps installed.apps := by
  refine forall₂_of_zip h.fit.apps (h.apps.imp fun entry app ha => ?_)
  exact ⟨ha.added.appType_eq, ha.added.name_eq,
    IdMapping.forall₂_of_resolve h.lists_collections ha.targets, ha.added.files_eq⟩

theorem matches_collections (h : PackAdded validator pack final installed added ids pending known stored) :
    List.Forall₂ (CollectionSpec.Matches installed) pack.collections installed.collections := by
  refine forall₂_of_zip h.fit.collections (h.collections.imp fun entry collection hc => ?_)
  have hsettings : entry.2.settings.Matches installed collection.settings :=
    ⟨hc.settings.name_eq, hc.settings.icon_eq, hc.settings.description_eq,
      IdMapping.rel_of_resolve h.lists_categories hc.settings.categoryId_eq,
      IdMapping.rel_of_resolve h.lists_apps hc.settings.defaultAppId_eq⟩
  have hschema := schemaMatches_of_resolved h.lists_collections hc.added.schema_eq hc.added.faultless
  rw [← hc.added.id_eq] at hschema
  refine ⟨hsettings, hschema, hc.added.versionSettings_eq, fun fixed hfixed => ?_⟩
  obtain ⟨id, hid⟩ := Schema.exists_id_of_faultless hc.added.faultless hfixed
  rw [hid]
  exact id.not_placeholder

theorem matches_documents (h : PackAdded validator pack final installed added ids pending known stored)
    (hfinds : final.Finds added) (hfiles : ∀ file ∈ added.files, file ∈ final.files) :
    List.Forall₂ (PackDocumentSpec.Matches final installed) pack.documents installed.documents := by
  rw [h.documents_eq, List.forall₂_map_right_iff]
  have hsupports := (h.supports hfinds).documents
  have heach := forall₂_mem_right h.documents
  refine forall₂_of_zip h.fit.documents (heach.imp fun entry document ⟨hmem, hd⟩ => ?_)
  have hdocument : document.1 ∈ added.documents := by
    rw [h.added_eq, h.documents_eq]
    exact List.mem_map.2 ⟨document, hmem, rfl⟩
  have hown : ∀ file ∈ document.2, file ∈ final.files := fun file hfile =>
    hfiles file (by rw [h.added_eq]; exact List.mem_flatMap.2 ⟨document, hmem, hfile⟩)
  obtain ⟨visits, collection, content, hadded⟩ := hd.added
  obtain ⟨root, hroot, hrewrites⟩ := becomes_of_resolved h.lists_collections h.lists_documents hadded
  exact ⟨(IdMapping.resolve_eq_iff h.lists_collections).1 hd.collectionId,
    ⟨collection, root, document.2, hadded.added.get?_collection hadded.get?_collection, hroot, hown,
      hrewrites⟩,
    (hsupports document.1 hdocument).noPlaceholder⟩

/-- An installed pack is the pack with its references resolved. -/
theorem matches_installed (h : PackAdded validator pack final installed added ids pending known stored)
    (hfinds : final.Finds added) (hfiles : ∀ file ∈ added.files, file ∈ final.files) :
    pack.Matches final installed :=
  ⟨h.matches_categories, h.matches_collections, h.matches_apps, h.matches_documents hfinds hfiles⟩

end PackAdded

namespace Engine

/-- A pack that is installed gives one entity for each entry, in order, with every reference replaced by
the id that it denotes and nothing else changed but the new files in content. -/
theorem installPack_exact {engine after : Engine} {pack : Pack} {installed : PackInstallation}
    (h : engine.installPack pack = (.ok installed, after)) :
    pack.Matches after.store.committed installed := by
  have hleaves := installPack_adds engine pack
  rw [h] at hleaves
  obtain ⟨added, hcommitted, hfinds, ids, pending, known, stored, hadded⟩ :=
    hleaves.succeeded installed rfl
  refine hadded.matches_installed hfinds fun file hfile => ?_
  rw [hcommitted]
  exact List.mem_append_right _ hfile

/-- A struct with one property, which refers to a document of the struct's own collection. -/
def personType : { d : Definition // d.DistinctKeys } where
  val := .struct [("friend", .documentRef (some selfCollection))] SortedMap.empty
  property := by simp [Definition.DistinctKeys, Definition.DistinctPropertyKeys, Entries.keys]

def personWithFriend (documentId : String) : Json :=
  .object [("friend", .object [("collectionId", .string "ProtoCollection_0"),
    ("documentId", .string documentId)])]

/-- A pack with references forward and back: two people, each the other's friend. -/
def friendsPack : Pack where
  id := "friends"
  info := {}
  categories := [{ name := "People", icon := "", parentId := none }]
  collections := [{
    settings := {
      name := "Friends"
      icon := ""
      description := ""
      categoryId := some "ProtoCollectionCategory_0"
      defaultAppId := some "ProtoApp_0" }
    schema := Schema.ofTypes "Person" [("Person", personType)]
    versionSettings := {} }]
  apps := [{
    appType := "list"
    name := "Circle"
    targets := ["ProtoCollection_0"]
    files := SortedMap.empty }]
  documents := [⟨"ProtoCollection_0", personWithFriend "ProtoDocument_1"⟩,
    ⟨"ProtoCollection_0", personWithFriend "ProtoDocument_0"⟩]

theorem installPack_friends :
    ∃ installed after, ({ supply := .counting } : Engine).installPack friendsPack =
      (.ok installed, after) ∧ friendsPack.Matches after.store.committed installed := by
  have hok : (({ supply := .counting } : Engine).installPack friendsPack).1.isOk = true := by
    decide +kernel
  generalize h : ({ supply := .counting } : Engine).installPack friendsPack = outcome at hok
  obtain ⟨result, after⟩ := outcome
  cases result with
  | error error => cases hok
  | ok installed => exact ⟨installed, after, rfl, installPack_exact h⟩

end Engine

end ContentStore

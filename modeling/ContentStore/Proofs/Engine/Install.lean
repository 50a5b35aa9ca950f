import ContentStore.Proofs.Engine.Collections
import ContentStore.Proofs.Engine.Documents

/-!
# What the installation of a pack adds

Every entry of a pack adds its entity, in the order of the entries, with its references resolved by the
ids that the entries were given.
-/

namespace ContentStore

namespace Operation

variable {committed : Tables} {before after : Work}

theorem returns_resolveId {kind : Kind} {mapping : IdMapping} {text : String} {id : RealId kind} :
    Returns (resolveId kind mapping text) committed before id after ↔
      mapping.resolve text = id.text ∧ before = after := by
  rw [resolveId, returns_ofExcept, RealId.parse_eq_ok_iff]

theorem returns_resolveOptional {kind : Kind} {mapping : IdMapping} {text : Option String}
    {id : Option (RealId kind)} :
    Returns (resolveOptional kind mapping text) committed before id after ↔
      text.map mapping.resolve = id.map RealId.text ∧ before = after := by
  cases text with
  | none => cases id <;> simp [resolveOptional]
  | some text =>
      simp only [resolveOptional, returns_bind, returns_resolveId, returns_pure]
      constructor
      · rintro ⟨found, _, ⟨hfound, rfl⟩, rfl, rfl⟩
        exact ⟨by simp [hfound], rfl⟩
      · rintro ⟨h, rfl⟩
        cases id with
        | none => cases h
        | some id => exact ⟨id, before, ⟨by simpa using h, rfl⟩, rfl, rfl⟩

theorem returns_mapM_resolveId {kind : Kind} {mapping : IdMapping} {texts : List String}
    {ids : List (RealId kind)} :
    Returns (texts.mapM (resolveId kind mapping)) committed before ids after ↔
      texts.map mapping.resolve = ids.map RealId.text ∧ before = after := by
  induction texts generalizing before ids after with
  | nil => cases ids <;> simp
  | cons text rest ih =>
      simp only [List.mapM_cons, returns_bind, returns_resolveId, ih, returns_pure]
      constructor
      · rintro ⟨id, _, ⟨hid, rfl⟩, others, _, ⟨hothers, rfl⟩, rfl, rfl⟩
        exact ⟨by simp [hid, hothers], rfl⟩
      · rintro ⟨h, rfl⟩
        cases ids with
        | nil => cases h
        | cons id others =>
            obtain ⟨hid, hothers⟩ := List.cons.inj h
            exact ⟨id, before, ⟨hid, rfl⟩, others, before, ⟨hothers, rfl⟩, rfl, rfl⟩

end Operation

/-- Settings whose references are resolved; the rest is as it was. -/
structure SettingsResolved (resolution : Resolution) (spec : SettingsSpec) (settings : CollectionSettings) :
    Prop where
  name_eq : settings.name = spec.name
  icon_eq : settings.icon = spec.icon
  description_eq : settings.description = spec.description
  categoryId_eq : spec.categoryId.map resolution.categories.resolve = settings.categoryId.map RealId.text
  defaultAppId_eq : spec.defaultAppId.map resolution.apps.resolve = settings.defaultAppId.map RealId.text

/-- Categories created one after another, the parent of each resolved by the mapping to those before. -/
inductive CategoriesResolved :
    IdMapping → Nat → List CategorySpec → List CollectionCategory → IdMapping → Prop where
  | nil {mapping : IdMapping} {index : Nat} : CategoriesResolved mapping index [] [] mapping
  | cons {mapping known : IdMapping} {index : Nat} {spec : CategorySpec} {category : CollectionCategory}
      {specs : List CategorySpec} {categories : List CollectionCategory}
      (parent : spec.parentId.map mapping.resolve = category.parentId.map RealId.text)
      (rest : CategoriesResolved (mapping.insert index category.id.text) (index + 1) specs categories
        known) :
      CategoriesResolved mapping index (spec :: specs) (category :: categories) known

namespace Operation

variable {committed : Tables} {before after : Work}

theorem returns_resolveSettings {resolution : Resolution} {spec : SettingsSpec}
    {settings : CollectionSettings} :
    Returns (resolveSettings resolution spec) committed before settings after ↔
      SettingsResolved resolution spec settings ∧ before = after := by
  simp only [resolveSettings, returns_bind, returns_resolveOptional, returns_pure]
  constructor
  · rintro ⟨category, _, ⟨hcategory, rfl⟩, app, _, ⟨happ, rfl⟩, rfl, rfl⟩
    exact ⟨⟨rfl, rfl, rfl, hcategory, happ⟩, rfl⟩
  · rintro ⟨⟨hname, hicon, hdescription, hcategory, happ⟩, rfl⟩
    refine ⟨settings.categoryId, _, ⟨hcategory, rfl⟩, settings.defaultAppId, _, ⟨happ, rfl⟩, ?_, rfl⟩
    rw [← hname, ← hicon, ← hdescription]

theorem newPackCategories_adds (mapping : IdMapping) (index : Nat) (specs : List CategorySpec) :
    Adds (newPackCategories mapping index specs) fun final result added =>
      CategoriesResolved mapping index specs result.1 result.2 ∧
        AddsEach (fun spec category part => part = @Tables.single .collectionCategory category ∧
          CategoryAdded spec.name spec.icon category.parentId final category) specs result.1 added := by
  induction specs generalizing mapping index with
  | nil =>
      intro committed before result after h
      simp only [newPackCategories, returns_pure] at h
      obtain ⟨rfl, rfl⟩ := h
      exact .of_read fun _ _ => ⟨.nil, .nil⟩
  | cons spec rest ih =>
      intro committed before result after h
      simp only [newPackCategories, returns_bind, returns_resolveOptional, returns_pure] at h
      obtain ⟨parent, _, ⟨hparent, rfl⟩, category, middle, hcategory, others, _, hothers, rfl, rfl⟩ := h
      have hhead := newCategory_adds spec.name spec.icon parent committed before category middle hcategory
      have htail := ih _ _ committed middle others _ hothers
      refine (hhead.trans htail).mono ?_
      rintro final _ ⟨_, _, rfl, ⟨rfl, hcategory⟩, hresolved, heach⟩
      have hown := hcategory.parentId_eq
      exact ⟨.cons (hown.symm ▸ hparent) hresolved, .cons ⟨rfl, hown.symm ▸ hcategory⟩ heach⟩

end Operation

/-- A collection of a pack, its settings resolved and its schema rewritten. -/
structure CollectionInstalled (pending : Pending) (resolution : Resolution) (id : CollectionId)
    (spec : CollectionSpec) (final : Tables) (collection : Collection) : Prop where
  settings : SettingsResolved resolution spec.settings collection.settings
  added : CollectionAdded pending id collection.settings
    (spec.schema.resolveCollections resolution.collections) spec.versionSettings final collection

structure AppInstalled (pending : Pending) (resolution : Resolution) (id : AppId) (spec : AppSpec)
    (final : Tables) (app : App) : Prop where
  targets : spec.targets.map resolution.collections.resolve = app.targets.map RealId.text
  added : AppAdded pending id spec.appType spec.name app.targets spec.files final app

/-- A document of a pack, its collection resolved and its content rewritten. -/
structure DocumentInstalled (validator : Validator) (pending : Pending) (resolution : Resolution)
    (id : DocumentId) (spec : PackDocumentSpec) (final : Tables) (document : Document)
    (files : List StoredFile) : Prop where
  collectionId : resolution.collections.resolve spec.collectionId = document.collectionId.text
  added : DocumentResolved validator pending resolution id document.collectionId spec.content final
    document files

namespace Operation

theorem newPackCollection_adds (pending : Pending) (resolution : Resolution) (id : CollectionId)
    (spec : CollectionSpec) :
    Adds (newPackCollection pending resolution id spec) fun final collection added =>
      added = @Tables.single .collection collection ∧
        CollectionInstalled pending resolution id spec final collection := by
  intro committed before collection after h
  simp only [newPackCollection, returns_bind, returns_resolveSettings] at h
  obtain ⟨settings, _, ⟨hsettings, rfl⟩, h⟩ := h
  refine (newCollection_adds _ _ _ _ _ committed before collection after h).mono ?_
  rintro final added ⟨hrow, hadded⟩
  have hown := hadded.settings_eq
  exact ⟨hrow, hown.symm ▸ hsettings, hown.symm ▸ hadded⟩

theorem newPackApp_adds (pending : Pending) (resolution : Resolution) (id : AppId) (spec : AppSpec) :
    Adds (newPackApp pending resolution id spec) fun final app added =>
      added = @Tables.single .app app ∧ AppInstalled pending resolution id spec final app := by
  intro committed before app after h
  simp only [newPackApp, returns_bind, returns_mapM_resolveId] at h
  obtain ⟨targets, _, ⟨htargets, rfl⟩, h⟩ := h
  refine (newApp_adds _ _ _ _ _ _ committed before app after h).mono ?_
  rintro final added ⟨hrow, hadded⟩
  have hown := hadded.targets_eq
  exact ⟨hrow, hown.symm ▸ htargets, hown.symm ▸ hadded⟩

theorem newPackDocument_adds (validator : Validator) (pending : Pending) (resolution : Resolution)
    (id : DocumentId) (spec : PackDocumentSpec) :
    Adds (newPackDocument validator pending resolution id spec) fun final document added =>
      ∃ files, added = { documents := [document], files } ∧
        DocumentInstalled validator pending resolution id spec final document files := by
  intro committed before document after h
  simp only [newPackDocument, returns_bind, returns_resolveId] at h
  obtain ⟨collectionId, _, ⟨hcollection, rfl⟩, h⟩ := h
  refine (newResolvedDocument_adds _ _ _ _ _ _ committed before document after h).mono ?_
  rintro final added ⟨files, hrows, hadded⟩
  have hown := hadded.collectionId_eq
  exact ⟨files, hrows, hown.symm ▸ hcollection, hown.symm ▸ hadded⟩

end Operation

/-- Ids for the entries of a pack, as many of each kind as there are entries. -/
structure PackIds.Fit (ids : PackIds) (pack : Pack) : Prop where
  collections : ids.collections.length = pack.collections.length
  apps : ids.apps.length = pack.apps.length
  documents : ids.documents.length = pack.documents.length

/-- What is pending once the ids are given: everything but the categories, each document in the collection
that its entry names. -/
structure PackPending (pack : Pack) (ids : PackIds) (pending : Pending) : Prop where
  collections_eq : pending.collections = ids.collections
  apps_eq : pending.apps = ids.apps
  documents : ∃ owners : List CollectionId, pending.documents = ids.documents.zip owners ∧
    pack.documents.map (fun spec => (Operation.resolutionBy ids).collections.resolve spec.collectionId) =
      owners.map RealId.text

def PackIds.resolution (ids : PackIds) (known : IdMapping) : Resolution :=
  { Operation.resolutionBy ids with categories := known }

/-- The entities of a pack with their references resolved, the files of its documents beside these. -/
structure PackAdded (validator : Validator) (pack : Pack) (final : Tables) (installed : PackInstallation)
    (added : Tables) (ids : PackIds) (pending : Pending) (known : IdMapping)
    (stored : List (Document × List StoredFile)) : Prop where
  fit : ids.Fit pack
  awaits : PackPending pack ids pending
  parents : CategoriesResolved (.empty .collectionCategory) 0 pack.categories installed.categories known
  categories : List.Forall₂ (fun spec category =>
    CategoryAdded spec.name spec.icon category.parentId final category)
    pack.categories installed.categories
  collections : List.Forall₂ (fun entry collection =>
    CollectionInstalled pending (ids.resolution known) entry.1 entry.2 final collection)
    (ids.collections.zip pack.collections) installed.collections
  apps : List.Forall₂ (fun entry app =>
    AppInstalled pending (ids.resolution known) entry.1 entry.2 final app)
    (ids.apps.zip pack.apps) installed.apps
  documents : List.Forall₂ (fun entry document =>
    DocumentInstalled validator pending (ids.resolution known) entry.1 entry.2 final document.1
      document.2)
    (ids.documents.zip pack.documents) stored
  documents_eq : installed.documents = stored.map Prod.fst
  added_eq : added = {
    categories := installed.categories
    collections := installed.collections
    apps := installed.apps
    documents := installed.documents
    files := stored.flatMap Prod.snd }

namespace Operation

variable {committed : Tables} {before after : Work}

theorem returns_idsFor {pack : Pack} {ids : PackIds}
    (h : Returns (idsFor pack) committed before ids after) :
    ids.Fit pack ∧ after.staged = before.staged := by
  simp only [idsFor, returns_bind, returns_pure] at h
  obtain ⟨collections, _, hcollections, apps, _, happs, documents, _, hdocuments, rfl, rfl⟩ := h
  obtain ⟨hc, hcs⟩ := returns_freshFor hcollections
  obtain ⟨ha, has⟩ := returns_freshFor happs
  obtain ⟨hd, hds⟩ := returns_freshFor hdocuments
  exact ⟨⟨hc, ha, hd⟩, hds.trans (has.trans hcs)⟩

theorem pendingFor_eq (pack : Pack) (ids : PackIds) (resolution : Resolution) :
    pendingFor pack ids resolution = do
      let owners ← (pack.documents.map PackDocumentSpec.collectionId).mapM
        (resolveId .collection resolution.collections)
      return { collections := ids.collections, apps := ids.apps, documents := ids.documents.zip owners } := by
  rw [pendingFor, List.mapM_map]
  rfl

theorem returns_pendingFor {pack : Pack} {ids : PackIds} {pending : Pending}
    (h : Returns (pendingFor pack ids (resolutionBy ids)) committed before pending after) :
    PackPending pack ids pending ∧ before = after := by
  simp only [pendingFor_eq, returns_bind, returns_mapM_resolveId, returns_pure] at h
  obtain ⟨owners, _, ⟨howners, rfl⟩, rfl, rfl⟩ := h
  exact ⟨⟨rfl, rfl, owners, rfl, by simpa [Function.comp_def] using howners⟩, rfl⟩

/-- A successful installation adds the entities of the pack and the files of its documents. -/
theorem newPack_adds (validator : Validator) (pack : Pack) :
    Adds (newPack validator pack) fun final installed added =>
      ∃ ids pending known stored,
        PackAdded validator pack final installed added ids pending known stored := by
  intro committed before installed after h
  simp only [newPack, returns_bind, returns_pure] at h
  obtain ⟨ids, given, hids, pending, _, hpending, ⟨categories, known⟩, _, hcategories, collections, _,
    hcollections, apps, _, happs, documents, _, hdocuments, rfl, rfl⟩ := h
  obtain ⟨hfit, hstaged⟩ := returns_idsFor hids
  obtain ⟨hawaits, rfl⟩ := returns_pendingFor hpending
  have hcategories := newPackCategories_adds _ _ _ committed _ _ _ hcategories
  have hcollections := Adds.mapM (fun entry _ => newPackCollection_adds pending
    (ids.resolution known) entry.1 entry.2) committed _ _ _ hcollections
  have happs := Adds.mapM (fun entry _ => newPackApp_adds pending (ids.resolution known)
    entry.1 entry.2) committed _ _ _ happs
  have hdocuments := Adds.mapM (fun entry _ => newPackDocument_adds validator pending
    (ids.resolution known) entry.1 entry.2) committed _ _ _ hdocuments
  refine Adding.of_staged_eq hstaged ?_
  refine (((hcategories.trans hcollections).trans happs).trans hdocuments).mono ?_
  rintro final _ ⟨_, addedDocuments, rfl, ⟨_, addedApps, rfl, ⟨addedCategories, addedCollections, rfl,
    ⟨hparents, hcategories⟩, hcollections⟩, happs⟩, hdocuments⟩
  obtain ⟨hcategories, hcategoryRows, hcategoryOnly⟩ := AddsEach.of_single .collectionCategory hcategories
  obtain ⟨hcollections, hcollectionRows, hcollectionOnly⟩ := AddsEach.of_single .collection hcollections
  obtain ⟨happs, happRows, happOnly⟩ := AddsEach.of_single .app happs
  obtain ⟨stored, hstored, rfl, hcreated⟩ := hdocuments.of_documents
  refine ⟨ids, pending, known, stored, hfit, hawaits, hparents, hcategories, hcollections, happs,
    hcreated, hstored, ?_⟩
  ext kind : 1
  rw [Tables.rows_append, Tables.rows_append, Tables.rows_append]
  cases kind <;>
    simp only [hcategoryRows, hcollectionRows, happRows, hcategoryOnly, hcollectionOnly, happOnly,
      ne_eq, reduceCtorEq, not_false_eq_true, List.nil_append, List.append_nil] <;>
    simp [Tables.rows]

end Operation

end ContentStore

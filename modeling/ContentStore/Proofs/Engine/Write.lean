import ContentStore.Proofs.Engine.Kept
import ContentStore.Proofs.Engine.Loading
import ContentStore.Proofs.Store.Session

/-!
# The calls that write

Each call of the engine either fails and leaves the committed rows alone, or adds the entities that it
answers with and the files that came with their content.
-/

namespace ContentStore

/-- A call of an engine operation that writes, with its arguments. -/
inductive Write where
  | createCategory (name icon : String) (parentId : Option CollectionCategoryId)
  | createCollection (settings : CollectionSettings) (schema : Schema) (versionSettings : VersionSettings)
  | createApp (appType name : String) (targets : List CollectionId) (files : SortedMap String String)
  | createDocument (collection : CollectionId) (content : Json)
  | createDocuments (specs : List DocumentSpec)
  | installPack (pack : Pack)

def Write.contents : Write → List Json
  | .createDocument _ content => [content]
  | .createDocuments specs => specs.map DocumentSpec.content
  | .installPack pack => pack.documents.map PackDocumentSpec.content
  | _ => []

namespace Engine

def answering {α : Type} (rows : α → Tables) (outcome : Except EngineError α × Engine) :
    Except EngineError Tables × Engine :=
  (outcome.1.map rows, outcome.2)

/-- Makes a call; the entities of the answer stand in tables, in the order of the answer. -/
def write (engine : Engine) : Write → Except EngineError Tables × Engine
  | .createCategory name icon parentId =>
      answering (fun category => { categories := [category] }) (engine.createCategory name icon parentId)
  | .createCollection settings schema versionSettings =>
      answering (fun collection => { collections := [collection] })
        (engine.createCollection settings schema versionSettings)
  | .createApp appType name targets files =>
      answering (fun app => { apps := [app] }) (engine.createApp appType name targets files)
  | .createDocument collection content =>
      answering (fun document => { documents := [document] }) (engine.createDocument collection content)
  | .createDocuments specs =>
      answering (fun documents => { documents }) (engine.createDocuments specs)
  | .installPack pack =>
      answering (fun installed => {
        categories := installed.categories
        collections := installed.collections
        apps := installed.apps
        documents := installed.documents }) (engine.installPack pack)

/-- An engine keeps its formats and limits, and its committed rows unless it succeeds; then added rows
follow these, of which a fact holds. -/
structure Leaves {α : Type} (engine : Engine) (outcome : Except EngineError α × Engine)
    (fact : Tables → α → Tables → Prop) : Prop where
  formats : outcome.2.formats = engine.formats
  config : outcome.2.config = engine.config
  failed : ∀ error, outcome.1 = .error error → outcome.2.store.committed = engine.store.committed
  succeeded : ∀ a, outcome.1 = .ok a → ∃ added,
    outcome.2.store.committed = engine.store.committed ++ added ∧
      fact outcome.2.store.committed a added

variable {α : Type} {engine : Engine} {fact fact' : Tables → α → Tables → Prop}

/-- A run fails and keeps the committed rows, or its operation succeeds and the staged rows follow them. -/
theorem run_cases (engine : Engine) (operation : Operation α) :
    (∃ error work, engine.run operation =
      (.error error, engine.afterWork work engine.store.committed)) ∨
    ∃ a work, operation engine.store.committed (Work.start engine.store.budget engine.supply) =
        (.ok a, work) ∧
      engine.run operation = (.ok a, engine.afterWork work (engine.store.committed ++ work.staged)) := by
  unfold run
  dsimp only
  split
  next result work hr =>
    cases result with
    | error error => exact .inl ⟨error, work, rfl⟩
    | ok a =>
        dsimp only
        split
        · next error _ => exact .inl ⟨.refused error, work, rfl⟩
        · next committed hc =>
            cases Tables.eq_append_of_commit hc
            exact .inr ⟨a, work, hr, rfl⟩

/-- A run succeeds where its operation does and no staged id is committed already. -/
theorem run_eq_ok_iff {engine after : Engine} {operation : Operation α} {a : α} :
    engine.run operation = (.ok a, after) ↔ ∃ work,
      operation.Returns engine.store.committed (Work.start engine.store.budget engine.supply) a work ∧
      (∀ kind, ∀ e ∈ work.staged.rows kind, engine.store.committed.contains kind e.id = false) ∧
      after = engine.afterWork work (engine.store.committed ++ work.staged) := by
  constructor
  · intro h
    unfold run at h
    dsimp only at h
    split at h
    next result work hr =>
      cases result with
      | error error => cases h
      | ok value =>
          dsimp only at h
          split at h
          · cases h
          · next committed hc =>
              cases h
              obtain ⟨hclear, rfl⟩ := Tables.commit_eq_ok_iff.1 hc
              exact ⟨work, hr, hclear, rfl⟩
  · rintro ⟨work, hr, hclear, rfl⟩
    unfold Operation.Returns at hr
    unfold run
    simp only [hr, Tables.commit_eq_ok_iff.2 ⟨hclear, rfl⟩]

theorem run_leaves {operation : Operation α} (h : operation.Adds fact) (engine : Engine) :
    Leaves engine (engine.run operation) fun final a added => final.Finds added ∧ fact final a added := by
  rcases engine.run_cases operation with ⟨error, work, hrun⟩ | ⟨a, work, hreturns, hrun⟩
  · rw [hrun]
    exact ⟨rfl, rfl, fun _ _ => rfl, fun _ he => nomatch he⟩
  · rw [hrun]
    refine ⟨rfl, rfl, (fun _ he => nomatch he), ?_⟩
    rintro _ ⟨⟩
    exact ⟨work.staged, rfl, h.of_start hreturns⟩

theorem leaves_refused (engine : Engine) (error : EngineError) :
    Leaves engine (.error error, engine) fact :=
  ⟨rfl, rfl, fun _ _ => rfl, fun _ he => nomatch he⟩

theorem Leaves.mono {outcome : Except EngineError α × Engine} (h : Leaves engine outcome fact)
    (hf : ∀ final a added, fact final a added → fact' final a added) : Leaves engine outcome fact' where
  formats := h.formats
  config := h.config
  failed := h.failed
  succeeded a ha := by
    obtain ⟨added, hrows, hfact⟩ := h.succeeded a ha
    exact ⟨added, hrows, hf _ a added hfact⟩

theorem Leaves.answering {outcome : Except EngineError α × Engine} {rows : α → Tables}
    {fact' : Tables → Tables → Tables → Prop} (h : Leaves engine outcome fact)
    (hf : ∀ final a added, fact final a added → fact' final (rows a) added) :
    Leaves engine (Engine.answering rows outcome) fact' where
  formats := h.formats
  config := h.config
  failed error he := by
    obtain ⟨result, after⟩ := outcome
    cases result with
    | error found => exact h.failed found rfl
    | ok a => cases he
  succeeded created hc := by
    obtain ⟨result, after⟩ := outcome
    cases result with
    | error found => cases hc
    | ok a =>
        cases hc
        obtain ⟨added, hrows, hfact⟩ := h.succeeded a rfl
        exact ⟨added, hrows, hf _ a added hfact⟩

end Engine

/-- What a successful call adds: the entities of its answer and the new files of the documents among
them. All that they refer to is there, and the documents are valid as stored. -/
structure Write.Adds (validator : Validator) (call : Write) (final created added : Tables) : Prop where
  rows : ∃ stored : List (Document × List StoredFile), created.files = [] ∧
    created.documents = stored.map Prod.fst ∧
    added = created ++ { files := stored.flatMap Prod.snd } ∧
    List.Forall₂ (fun content entry => StoresNewFiles final content entry.1 entry.2) call.contents stored
  supported : final.Supports added
  admitted : ∀ document ∈ added.documents, final.Admits validator document

namespace Engine

variable (engine : Engine)

theorem createCategory_leaves (name icon : String) (parentId : Option CollectionCategoryId) :
    Leaves engine (engine.write (.createCategory name icon parentId))
      (Write.Adds engine.validator (.createCategory name icon parentId)) := by
  refine (run_leaves (Operation.newCategory_adds name icon parentId) engine).answering ?_
  rintro final category _ ⟨-, rfl, hadded⟩
  refine ⟨⟨[], rfl, rfl, rfl, .nil⟩, Tables.supports_category ?_, List.forall_mem_nil _⟩
  rw [hadded.parentId_eq]
  exact hadded.parent

theorem createCollection_leaves (settings : CollectionSettings) (schema : Schema)
    (versionSettings : VersionSettings) :
    Leaves engine (engine.write (.createCollection settings schema versionSettings))
      (Write.Adds engine.validator (.createCollection settings schema versionSettings)) := by
  refine (run_leaves (Operation.Adds.fresh_bind fun id =>
    Operation.newCollection_adds {} id settings schema versionSettings) engine).answering ?_
  rintro final collection _ ⟨-, id, rfl, hadded⟩
  refine ⟨⟨[], rfl, rfl, rfl, .nil⟩, Tables.supports_collection ?_ ?_, List.forall_mem_nil _⟩
  · rw [hadded.settings_eq]
    exact hadded.category
  · rw [hadded.settings_eq]
    exact fun app happ => (hadded.defaultApp app happ).resolve_left List.not_mem_nil

theorem createApp_leaves (appType name : String) (targets : List CollectionId)
    (files : SortedMap String String) :
    Leaves engine (engine.write (.createApp appType name targets files))
      (Write.Adds engine.validator (.createApp appType name targets files)) := by
  refine (run_leaves (Operation.Adds.fresh_bind fun id =>
    Operation.newApp_adds {} id appType name targets files) engine).answering ?_
  rintro final app _ ⟨-, id, rfl, hadded⟩
  refine ⟨⟨[], rfl, rfl, rfl, .nil⟩, Tables.supports_app ?_, List.forall_mem_nil _⟩
  rw [hadded.targets_eq]
  exact fun target htarget => (hadded.found target htarget).resolve_left List.not_mem_nil

theorem createDocument_leaves (collectionId : CollectionId) (content : Json) :
    Leaves engine (engine.write (.createDocument collectionId content))
      (Write.Adds engine.validator (.createDocument collectionId content)) := by
  refine (run_leaves (Operation.createDocument_adds engine.validator collectionId content)
    engine).answering ?_
  rintro final document _ ⟨hfinds, files, id, collection, visits, rfl, hget, hadded⟩
  have hid : collection.id = collectionId := Tables.id_of_get? hget
  rw [← hid] at hget
  have hstored := hadded.stored hget
  have heach : List.Forall₂ (fun content entry =>
      DocumentStored engine.validator {} final content entry.1 entry.2) [content]
      [(document, files)] := .cons hstored .nil
  have hfiles : files = [(document, files)].flatMap Prod.snd := by simp
  refine ⟨⟨[(document, files)], rfl, rfl, ?_, heach.imp fun _ _ hs => hs.newFiles⟩,
    Tables.supports_documents (carries_of_stored (Pending.kept_empty final) hfinds rfl hfiles heach),
    admits_of_stored rfl heach⟩
  rw [← hfiles]
  exact Tables.mk_eq_append_files _ _ _ _ _

theorem createDocuments_adds (specs : List DocumentSpec) :
    Leaves engine (engine.createDocuments specs) fun final documents added =>
      final.Finds added ∧ ∃ ids pending resolution stored,
        DocumentsAdded engine.validator specs final documents added ids pending resolution stored := by
  rw [createDocuments_eq]
  split
  · exact leaves_refused engine _
  · exact run_leaves (Operation.newBatch_adds engine.validator specs) engine

theorem createDocuments_leaves (specs : List DocumentSpec) :
    Leaves engine (engine.write (.createDocuments specs))
      (Write.Adds engine.validator (.createDocuments specs)) := by
  refine (createDocuments_adds engine specs).answering ?_
  rintro final documents added ⟨hfinds, ids, pending, resolution, stored, hadded⟩
  have hsupports := hadded.supports hfinds
  obtain rfl := hadded.added_eq
  have hdocuments := hadded.documents_eq
  exact ⟨⟨stored, rfl, hdocuments, Tables.mk_eq_append_files _ _ _ _ _,
      hadded.stored_each.imp fun _ _ hs => hs.newFiles⟩,
    hsupports, admits_of_stored hdocuments hadded.stored_each⟩

theorem installPack_adds (pack : Pack) :
    Leaves engine (engine.installPack pack) fun final installed added =>
      final.Finds added ∧ ∃ ids pending known stored,
        PackAdded engine.validator pack final installed added ids pending known stored := by
  unfold installPack
  split
  · exact run_leaves (Operation.newPack_adds engine.validator pack) engine
  · exact leaves_refused engine _

theorem installPack_leaves (pack : Pack) :
    Leaves engine (engine.write (.installPack pack))
      (Write.Adds engine.validator (.installPack pack)) := by
  refine (installPack_adds engine pack).answering ?_
  rintro final installed added ⟨hfinds, ids, pending, known, stored, hadded⟩
  have hsupports := hadded.supports hfinds
  obtain rfl := hadded.added_eq
  have hdocuments := hadded.documents_eq
  exact ⟨⟨stored, rfl, hdocuments, Tables.mk_eq_append_files _ _ _ _ _,
      hadded.stored_each.imp fun _ _ hs => hs.newFiles⟩,
    hsupports, admits_of_stored hdocuments hadded.stored_each⟩

/-- Every call leaves the committed rows alone or adds to them what it answers with. -/
theorem write_leaves (call : Write) :
    Leaves engine (engine.write call) (Write.Adds engine.validator call) := by
  cases call with
  | createCategory name icon parentId => exact createCategory_leaves engine name icon parentId
  | createCollection settings schema versionSettings =>
      exact createCollection_leaves engine settings schema versionSettings
  | createApp appType name targets files => exact createApp_leaves engine appType name targets files
  | createDocument collection content => exact createDocument_leaves engine collection content
  | createDocuments specs => exact createDocuments_leaves engine specs
  | installPack pack => exact installPack_leaves engine pack

/-- A call that fails leaves the committed rows as they were. One that succeeds adds the entities of its
answer, in the order of the answer, and the new files of the documents among them. -/
theorem write_all_or_nothing (engine : Engine) (call : Write) :
    match engine.write call with
    | (.error _, after) => after.store.committed = engine.store.committed
    | (.ok created, after) =>
        ∃ stored : List (Document × List StoredFile), created.files = [] ∧
          created.documents = stored.map Prod.fst ∧
          after.store.committed =
            engine.store.committed ++ (created ++ { files := stored.flatMap Prod.snd }) ∧
          List.Forall₂ (fun content entry =>
            StoresNewFiles after.store.committed content entry.1 entry.2) call.contents stored := by
  have hleaves := write_leaves engine call
  generalize engine.write call = outcome at hleaves
  obtain ⟨result, after⟩ := outcome
  cases result with
  | error error => exact hleaves.failed error rfl
  | ok created =>
      obtain ⟨added, hcommitted, ⟨stored, hnoFiles, hdocuments, rfl, heach⟩, -, -⟩ :=
        hleaves.succeeded created rfl
      exact ⟨stored, hnoFiles, hdocuments, hcommitted, heach⟩

end Engine

end ContentStore

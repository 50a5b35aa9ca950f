import ContentStore.Proofs.Content.Attachments
import ContentStore.Proofs.Engine.Exact

/-!
# The files that are stored with documents

Whichever operation creates a document, the new files of the content that was handed in and the files that
are stored go together one by one, in the order of the walk, and no other file is stored.
-/

namespace ContentStore

/-- The content of a document beside the content that was handed in for it: the visited positions are
filled with the files that were stored, and nothing but these positions is different. -/
structure ContentFilled (resolution : Resolution) (t : Tables) (content : Json) (document : Document)
    (files : List StoredFile) (collection : Collection) (root : Definition) (before after : List Visit) :
    Prop where
  collection_eq : t.get? .collection document.collectionId = some collection
  root_eq : collection.schema.root = .ok root
  before_eq : collection.schema.visitContent content = .ok before
  after_eq : collection.schema.visitContent document.content = .ok after
  filled : Filled resolution before after files
  outside : Rewrites collection.schema (fun _ _ _ => True) root content document.content

/-- A document is stored with the files that were new in the content that was handed in. -/
def StoredWithFiles (resolution : Resolution) (t : Tables) (content : Json)
    (entry : Document × List StoredFile) : Prop :=
  ∃ collection root before after,
    ContentFilled resolution t content entry.1 entry.2 collection root before after

theorem StoredWithFiles.congr {resolution other : Resolution} {t : Tables} {content : Json}
    {entry : Document × List StoredFile} (hc : other.collections = resolution.collections)
    (hd : other.documents = resolution.documents) (h : StoredWithFiles resolution t content entry) :
    StoredWithFiles other t content entry := by
  obtain ⟨collection, root, before, after, h⟩ := h
  exact ⟨collection, root, before, after, h.collection_eq, h.root_eq, h.before_eq, h.after_eq,
    h.filled.congr hc hd, h.outside⟩

section

variable {validator : Validator} {pending : Pending} {final : Tables} {document : Document}
  {files : List StoredFile} {visits : List Visit} {collection : Collection} {id : DocumentId}
  {content : Json} {resolution : Resolution}

theorem DocumentAdded.exists_filled
    (h : DocumentAdded validator pending id collection content final document files visits)
    {before : List Visit} (hv : visits = before.map (Visit.mapped resolution.resolveVisit))
    (hn : ∀ visit ∈ before, visit.value ≠ .null) :
    ∃ after, collection.schema.visitContent document.content = .ok after ∧
      Filled resolution before after files := by
  obtain ⟨left, hwritten⟩ := h.written
  have hfiles : files.map StoredFile.data = before.filterMap Visit.newFile? := by
    rw [h.files_eq, hv, List.filterMap_map]
    congr 1
    funext visit
    exact resolution.newFile?_mapped visit
  have hafter := Schema.visitContent_of_changeContent hwritten h.visited
  rw [hv] at hafter
  exact ⟨_, hafter, filled_of_placeFiles hn hfiles⟩

/-- Content without proto ids is stored as it was handed in but for its new files. -/
theorem DocumentAdded.storedWithFiles
    (h : DocumentAdded validator pending id collection content final document files visits)
    (hget : final.get? .collection collection.id = some collection) :
    StoredWithFiles {} final content (document, files) := by
  have hn : ∀ visit ∈ visits, visit.value ≠ .null := fun visit hm =>
    Schema.value_ne_null_of_mem_visitContent h.visited hm
  obtain ⟨after, hafter, hfilled⟩ := h.exists_filled (Resolution.map_mapped_empty visits).symm hn
  obtain ⟨root, hroot, hplaced⟩ := h.placed
  exact ⟨collection, root, visits, after, h.get?_collection hget, hroot, h.visited, hafter, hfilled,
    hplaced.mono fun _ _ _ _ _ _ => trivial⟩

theorem DocumentResolved.storedWithFiles {collectionId : CollectionId} {handedIn : Json}
    (h : DocumentResolved validator pending resolution id collectionId handedIn final document files) :
    StoredWithFiles resolution final handedIn (document, files) := by
  obtain ⟨visits, collection, content, h⟩ := h
  obtain ⟨root, before, hroot, hbefore, hresolved⟩ := Schema.rewrites_of_resolveContent h.content_eq
  obtain ⟨root', hroot', hplaced⟩ := h.added.placed
  cases hroot.symm.trans hroot'
  have hvisits : visits = before.map (Visit.mapped resolution.resolveVisit) := by
    have hagain := Schema.visitContent_of_mapVisited h.content_eq hbefore
      resolution.resolveVisit_ne_null
    exact Except.ok.inj (h.added.visited.symm.trans hagain)
  have hn : ∀ visit ∈ before, visit.value ≠ .null := fun visit hm =>
    Schema.value_ne_null_of_mem_visitContent hbefore hm
  obtain ⟨after, hafter, hfilled⟩ := h.added.exists_filled hvisits hn
  have houtside := hresolved.comp resolution.turns_keepsNonnull hplaced
  exact ⟨collection, root, before, after, h.added.get?_collection h.get?_collection, hroot, hbefore,
    hafter, hfilled, houtside.mono fun _ _ _ _ _ _ => trivial⟩

end

/-- What a call puts in the place of the proto ids in content: the ids of what it creates. -/
def Write.resolution (call : Write) (created : Tables) : Resolution :=
  match call with
  | .createDocuments _ => { documents := .ofIds (created.documents.map Document.id) }
  | .installPack _ => {
      categories := .ofIds (created.categories.map CollectionCategory.id)
      collections := .ofIds (created.collections.map Collection.id)
      apps := .ofIds (created.apps.map App.id)
      documents := .ofIds (created.documents.map Document.id) }
  | _ => {}

theorem DocumentsAdded.ids_eq {validator : Validator} {specs : List DocumentSpec} {final added : Tables}
    {documents : List Document} {ids : List DocumentId} {pending : Pending} {resolution : Resolution}
    {stored : List (Document × List StoredFile)}
    (h : DocumentsAdded validator specs final documents added ids pending resolution stored) :
    documents.map Document.id = ids := by
  have hids : stored.map (fun entry => entry.1.id) = ids :=
    map_eq_of_zip h.length_eq (h.each.imp fun _ _ hd => hd.id_eq)
  rw [← hids, h.documents_eq, List.map_map]
  rfl

/-- The documents of an answer are stored with the files that were new in the contents of the call, and
no other file is. -/
def StoresFiles (call : Write) (final created added : Tables) : Prop :=
  ∃ stored : List (Document × List StoredFile), created.documents = stored.map Prod.fst ∧
    added.files = stored.flatMap Prod.snd ∧
    List.Forall₂ (StoredWithFiles (call.resolution created) final) call.contents stored

/-- A call without contents stores no file. -/
theorem storesFiles_of_no_contents {validator : Validator} {call : Write} {final created added : Tables}
    (hc : call.contents = []) (h : call.Adds validator final created added) :
    StoresFiles call final created added := by
  obtain ⟨stored, hnoFiles, hdocuments, rfl, heach⟩ := h.rows
  rw [hc] at heach
  cases heach
  refine ⟨[], hdocuments, ?_, ?_⟩
  · exact List.append_eq_nil_iff.2 ⟨hnoFiles, rfl⟩
  · rw [hc]
    exact .nil

namespace Engine

variable (engine : Engine)

theorem createDocument_storesFiles (collectionId : CollectionId) (content : Json) :
    Leaves engine (engine.write (.createDocument collectionId content))
      (StoresFiles (.createDocument collectionId content)) := by
  refine (run_leaves (Operation.createDocument_adds engine.validator collectionId content)
    engine).answering ?_
  rintro final document _ ⟨-, files, id, collection, visits, rfl, hget, hadded⟩
  have hid : collection.id = collectionId := Tables.id_of_get? hget
  rw [← hid] at hget
  exact ⟨[(document, files)], rfl, by simp, .cons (hadded.storedWithFiles hget) .nil⟩

theorem createDocuments_storesFiles (specs : List DocumentSpec) :
    Leaves engine (engine.write (.createDocuments specs)) (StoresFiles (.createDocuments specs)) := by
  refine (createDocuments_adds engine specs).answering ?_
  rintro final documents added ⟨-, ids, pending, resolution, stored, hadded⟩
  obtain rfl := hadded.added_eq
  refine ⟨stored, hadded.documents_eq, rfl, ?_⟩
  have hresolution : Write.resolution (.createDocuments specs) { documents := documents } =
      resolution := by
    rw [hadded.resolution_eq, ← hadded.ids_eq]
    rfl
  rw [hresolution]
  show List.Forall₂ _ (specs.map DocumentSpec.content) stored
  rw [List.forall₂_map_left_iff]
  exact forall₂_of_zip hadded.length_eq (hadded.each.imp fun entry document hd => hd.storedWithFiles)

theorem installPack_storesFiles (pack : Pack) :
    Leaves engine (engine.write (.installPack pack)) (StoresFiles (.installPack pack)) := by
  refine (installPack_adds engine pack).answering ?_
  rintro final installed added ⟨-, ids, pending, known, stored, hadded⟩
  obtain rfl := hadded.added_eq
  refine ⟨stored, hadded.documents_eq, rfl, ?_⟩
  have hcollections : installed.collections.map Collection.id = ids.collections := hadded.ids_collection
  have hdocuments : installed.documents.map Document.id = ids.documents := hadded.ids_document
  show List.Forall₂ _ (pack.documents.map PackDocumentSpec.content) stored
  rw [List.forall₂_map_left_iff]
  refine forall₂_of_zip hadded.fit.documents (hadded.documents.imp fun entry document hd => ?_)
  refine hd.added.storedWithFiles.congr ?_ ?_
  · exact congrArg IdMapping.ofIds hcollections
  · exact congrArg IdMapping.ofIds hdocuments

/-- Whatever a call creates, the files that it stores are the new files of the contents it was handed. -/
theorem write_storesFiles (call : Write) :
    Leaves engine (engine.write call) (StoresFiles call) := by
  cases call with
  | createDocument collection content => exact createDocument_storesFiles engine collection content
  | createDocuments specs => exact createDocuments_storesFiles engine specs
  | installPack pack => exact installPack_storesFiles engine pack
  | _ => exact (write_leaves engine _).mono fun _ _ _ h => storesFiles_of_no_contents rfl h

/-- The files that a successful call stores are the new files in the contents that it was handed, each
with its name, its media type and its bytes, document by document in the order of the walk. The content
of each created document refers to them in the places of the new files; its document references are
resolved, and nothing else in it is different. -/
theorem write_files_match {engine after : Engine} {call : Write} {created : Tables}
    (h : engine.write call = (.ok created, after)) :
    ∃ stored : List (Document × List StoredFile), created.documents = stored.map Prod.fst ∧
      after.store.committed.files = engine.store.committed.files ++ stored.flatMap Prod.snd ∧
      List.Forall₂ (StoredWithFiles (call.resolution created) after.store.committed) call.contents
        stored := by
  have hleaves := write_storesFiles engine call
  rw [h] at hleaves
  obtain ⟨added, hcommitted, stored, hdocuments, hfiles, heach⟩ := hleaves.succeeded created rfl
  refine ⟨stored, hdocuments, ?_, heach⟩
  have hrows : after.store.committed.files = engine.store.committed.files ++ added.files :=
    congrArg Tables.files hcommitted
  rw [hrows, hfiles]

def noteType : { d : Definition // d.DistinctKeys } where
  val := .struct [("attachment", .file none)] SortedMap.empty
  property := by simp [Definition.DistinctKeys, Definition.DistinctPropertyKeys, Entries.keys]

def notesPack : Pack where
  id := "notes"
  info := {}
  categories := []
  collections := [{
    settings := { name := "Notes", icon := "", description := "", categoryId := none, defaultAppId := none }
    schema := Schema.ofTypes "Note" [("Note", noteType)]
    versionSettings := {} }]
  apps := []
  documents := [⟨"ProtoCollection_0", .object [("attachment", .object [("name", .string "hi.txt"),
    ("mimeType", .string "text/plain"), ("content", .array [.ofNat 104, .ofNat 105])])]⟩]

/-- The one file that the pack of notes brings is stored with its bytes. -/
theorem write_files_match_notes :
    ∃ created after stored, ({ supply := .counting } : Engine).write (.installPack notesPack) =
        (.ok created, after) ∧
      after.store.committed.files.map StoredFile.data = [("hi.txt", "text/plain", [104, 105])] ∧
      after.store.committed.files = stored.flatMap Prod.snd ∧
      List.Forall₂ (StoredWithFiles (Write.resolution (.installPack notesPack) created)
        after.store.committed) (Write.contents (.installPack notesPack)) stored := by
  have hok : (({ supply := .counting } : Engine).write (.installPack notesPack)).1.isOk = true := by
    decide +kernel
  have hdata : ((({ supply := .counting } : Engine).write
      (.installPack notesPack)).2.store.committed.files.map StoredFile.data) =
        [("hi.txt", "text/plain", [104, 105])] := by
    decide +kernel
  generalize h : ({ supply := .counting } : Engine).write (.installPack notesPack) = outcome at hok hdata
  obtain ⟨result, after⟩ := outcome
  cases result with
  | error error => cases hok
  | ok created =>
      obtain ⟨stored, -, hfiles, heach⟩ := write_files_match h
      exact ⟨created, after, stored, rfl, hdata, hfiles, heach⟩

end Engine

end ContentStore

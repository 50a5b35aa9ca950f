import ContentStore.Proofs.Content.Validity
import ContentStore.Proofs.Engine.Adds

/-!
# What the creation of a document adds

A new document comes with the files that were new in its content. The content was valid as it was handed
in, and every document and stored file that it refers to was found.
-/

namespace ContentStore

/-- In which collection a document is once the operation that creates one has come to its end: the new
document in its own, a pending one as it was announced, any other as it is stored. -/
inductive Located (pending : Pending) (ownId : DocumentId) (own : CollectionId) (final : Tables) :
    DocumentId → CollectionId → Prop where
  | own : Located pending ownId own final ownId own
  | pending {id : DocumentId} {collection : CollectionId} (h : (id, collection) ∈ pending.documents) :
      Located pending ownId own final id collection
  | stored {id : DocumentId} {document : Document} (h : final.get? .document id = some document) :
      Located pending ownId own final id document.collectionId

/-- The documents and stored files that visited content refers to are all there. -/
structure ReferencesFound (pending : Pending) (ownId : DocumentId) (own : CollectionId) (final : Tables)
    (visits : List Visit) : Prop where
  documents : ∀ reference ∈ visits.filterMap Visit.documentReference?,
    ∃ (id : DocumentId) (collection : CollectionId), reference.documentId = id.text ∧
      reference.collectionId = collection.text ∧ Located pending ownId own final id collection
  files : ∀ text ∈ visits.filterMap Visit.storedFileId?,
    ∃ id : FileId, text = id.text ∧ final.contains .file id = true

/-- A document as it was asked for, made of valid content with the given visits, its new files stored and
put in their places. -/
structure DocumentAdded (validator : Validator) (pending : Pending) (id : DocumentId)
    (collection : Collection) (content : Json) (final : Tables) (document : Document)
    (files : List StoredFile) (visits : List Visit) : Prop where
  id_eq : document.id = id
  collectionId_eq : document.collectionId = collection.id
  valid : validator.validate collection.schema content = .ok []
  visited : collection.schema.visitContent content = .ok visits
  files_eq : files.map StoredFile.data = visits.filterMap Visit.newFile?
  written : ∃ left, collection.schema.changeContent placeFiles content
    (files.map StoredFile.reference) = .ok (document.content, left)
  found : ReferencesFound pending id collection.id final visits

theorem DocumentAdded.placed {validator : Validator} {pending : Pending} {id : DocumentId}
    {collection : Collection} {content : Json} {final : Tables} {document : Document}
    {files : List StoredFile} {visits : List Visit}
    (h : DocumentAdded validator pending id collection content final document files visits) :
    ∃ root, collection.schema.root = .ok root ∧
      Rewrites collection.schema
        (fun d value value' => Visited visits d value ∧ Placed files d value value') root content
        document.content := by
  obtain ⟨left, hplaced⟩ := h.written
  exact Schema.rewrites_of_placeFiles hplaced h.visited h.files_eq

namespace Work

def ownerOf? (work : Work) (committed : Tables) (pending : Pending) (ownId : DocumentId)
    (own : CollectionId) (id : DocumentId) : Option CollectionId :=
  if id = ownId then some own
  else
    match pending.documents.lookup id with
    | some collection => some collection
    | none =>
        let document : Option Document := work.get? committed .document id
        document.map Document.collectionId

/-- Whether an operation that creates a document finds the document that a reference names. -/
def finds (work : Work) (committed : Tables) (pending : Pending) (ownId : DocumentId)
    (own : CollectionId) (reference : DocumentReference) : Bool :=
  match RealId.ofText? .document reference.documentId with
  | none => false
  | some id => (work.ownerOf? committed pending ownId own id).any fun c => c.text == reference.collectionId

def findsFile (work : Work) (committed : Tables) (text : String) : Bool :=
  match RealId.ofText? .file text with
  | none => false
  | some id => (work.get? committed .file id).isSome

variable {work : Work} {committed more : Tables} {pending : Pending} {ownId : DocumentId}
  {own : CollectionId}

theorem located_of_ownerOf? (hu : Tables.Unique committed (work.staged ++ more)) {id : DocumentId}
    {collection : CollectionId} (h : work.ownerOf? committed pending ownId own id = some collection) :
    Located pending ownId own (committed ++ (work.staged ++ more)) id collection := by
  unfold ownerOf? at h
  split at h
  · next heq =>
      cases heq
      cases h
      exact .own
  · split at h
    · next hp =>
        cases h
        exact .pending (Entries.mem_of_lookup hp)
    · obtain ⟨document, hd, rfl⟩ := Option.map_eq_some_iff.1 h
      exact .stored (get?_eq_some_final (hu .document (by decide)) hd)

theorem located_of_finds (hu : Tables.Unique committed (work.staged ++ more))
    {reference : DocumentReference} (h : work.finds committed pending ownId own reference = true) :
    ∃ (id : DocumentId) (collection : CollectionId), reference.documentId = id.text ∧
      reference.collectionId = collection.text ∧
      Located pending ownId own (committed ++ (work.staged ++ more)) id collection := by
  unfold finds at h
  split at h
  · cases h
  · next id hid =>
      cases hc : work.ownerOf? committed pending ownId own id with
      | none => simp [hc] at h
      | some collection =>
          have htext : collection.text = reference.collectionId := by simpa [hc] using h
          exact ⟨id, collection, RealId.ofText?_eq_some_iff.1 hid, htext.symm,
            located_of_ownerOf? hu hc⟩

theorem contains_of_findsFile {text : String} (h : work.findsFile committed text = true) :
    ∃ id : FileId, text = id.text ∧ (committed ++ (work.staged ++ more)).contains .file id = true := by
  unfold findsFile at h
  split at h
  · cases h
  · next id hid => exact ⟨id, RealId.ofText?_eq_some_iff.1 hid, contains_final h⟩

end Work

namespace Operation

variable {committed : Tables} {before after : Work}

theorem reads_collectionOf? (pending : Pending) (ownId : DocumentId) (own : CollectionId)
    (id : DocumentId) :
    Reads (collectionOf? pending ownId own id) committed fun work =>
      work.ownerOf? committed pending ownId own id := by
  intro work
  unfold collectionOf? Work.ownerOf?
  by_cases hid : id = ownId
  · simp only [hid, if_true]
    rfl
  · simp only [hid, if_false]
    cases pending.documents.lookup id <;> rfl

theorem reads_referenceHolds (pending : Pending) (ownId : DocumentId) (own : CollectionId)
    (reference : DocumentReference) :
    Reads (referenceHolds pending ownId own reference) committed fun work =>
      work.finds committed pending ownId own reference := by
  unfold referenceHolds Work.finds
  cases RealId.ofText? .document reference.documentId with
  | none => exact .pure false
  | some id =>
      exact (reads_collectionOf? pending ownId own id).bind fun collection =>
        .pure (collection.any fun c => c.text == reference.collectionId)

theorem reads_fileHolds (text : String) :
    Reads (fileHolds text) committed fun work => work.findsFile committed text := by
  unfold fileHolds Work.findsFile
  cases RealId.ofText? .file text with
  | none => exact .pure false
  | some id => exact .present .file id

theorem reads_missingReferences {holds : DocumentReference → Operation Bool}
    {view : DocumentReference → Work → Bool} (h : ∀ r, Reads (holds r) committed (view r))
    (references : List DocumentReference) :
    Reads (missingReferences holds references) committed fun work =>
      (references.filter fun r => !view r work).foldl
        (fun found r => if found.contains r then found else found ++ [r]) [] :=
  (Reads.filterM (fun r => (h r).bind fun found => .pure !found) references).bind fun _ => .pure _

theorem reads_missingFiles (ids : List String) :
    Reads (missingFiles ids) committed fun work =>
      (SortedSet.ofList (ids.filter fun text => !work.findsFile committed text)).toList :=
  (Reads.filterM (fun text => (reads_fileHolds text).bind fun found => .pure !found) ids).bind
    fun _ => .pure _

/-- No reference is missing exactly where every one is found. -/
theorem returns_missingReferences {holds : DocumentReference → Operation Bool}
    {view : DocumentReference → Work → Bool} (h : ∀ r, Reads (holds r) committed (view r))
    {references : List DocumentReference} :
    Returns (missingReferences holds references) committed before [] after ↔
      (∀ r ∈ references, view r before = true) ∧ before = after := by
  rw [(reads_missingReferences h references).returns_iff]
  apply and_congr_left
  intro _
  have hstep : ∀ (found : List DocumentReference) r,
      (if found.contains r then found else found ++ [r]) ≠ [] := by
    intro found r
    split
    · next hc =>
        rintro rfl
        simp at hc
    · simp
  constructor
  · intro hnone r hmem
    simpa using List.filter_eq_nil_iff.1 (foldl_eq_nil hstep hnone.symm) r hmem
  · intro hall
    rw [List.filter_eq_nil_iff.2 (by simpa using hall), List.foldl_nil]

theorem returns_missingFiles {ids : List String} :
    Returns (missingFiles ids) committed before [] after ↔
      (∀ text ∈ ids, before.findsFile committed text = true) ∧ before = after := by
  rw [(reads_missingFiles ids).returns_iff]
  apply and_congr_left
  intro _
  constructor
  · intro hnone text hmem
    have hbroken := SortedSet.eq_nil_of_toList_ofList hnone.symm
    simpa using List.filter_eq_nil_iff.1 hbroken text hmem
  · intro hall
    rw [List.filter_eq_nil_iff.2 (by simpa using hall)]
    rfl

/-- The files to store have the data of the new ones, in order. -/
theorem returns_filesToStore {news : List (String × String × List UInt8)} {files : List StoredFile}
    (h : Returns (filesToStore news) committed before files after) :
    files.map StoredFile.data = news ∧ after.staged = before.staged := by
  induction news generalizing before files with
  | nil =>
      simp only [filesToStore, returns_pure] at h
      obtain ⟨rfl, rfl⟩ := h
      exact ⟨rfl, rfl⟩
  | cons new rest ih =>
      obtain ⟨name, mimeType, content⟩ := new
      simp only [filesToStore, returns_bind, returns_fresh, returns_now, returns_pure] at h
      obtain ⟨id, middle, hfresh, _, _, ⟨rfl, rfl⟩, files, _, hrest, rfl, rfl⟩ := h
      obtain ⟨hdata, hstaged⟩ := ih hrest
      cases hfresh
      exact ⟨by simp [hdata, StoredFile.data], hstaged⟩

theorem insertFiles_adding {files : List StoredFile} {u : PUnit}
    (h : Returns (files.forM fun file => @insert .file file) committed before u after) :
    Adding committed before after fun _ added => added = { files } := by
  induction files generalizing before with
  | nil =>
      simp only [List.forM_eq_forM, List.forM_nil, returns_pure] at h
      obtain ⟨-, rfl⟩ := h
      exact .of_read fun _ _ => rfl
  | cons file rest ih =>
      simp only [List.forM_eq_forM, List.forM_cons, returns_bind, returns_insert] at h ih
      obtain ⟨_, middle, hinsert, hrest⟩ := h
      refine ((Adding.of_insert .file (by decide) hinsert).trans (ih hrest)).mono ?_
      rintro final added ⟨_, _, rfl, rfl, rfl⟩
      rfl

/-- A document is created exactly where its content is valid and all that the content refers to is found,
and where no row is refused. -/
theorem returns_newDocument {validator : Validator} {pending : Pending} {id : DocumentId}
    {collection : Collection} {content : Json} {document : Document} :
    Returns (newDocument validator pending id collection content) committed before document after ↔
      validator.validate collection.schema content = .ok [] ∧
      ∃ visits, collection.schema.visitContent content = .ok visits ∧
      (∀ reference ∈ visits.filterMap Visit.documentReference?,
        before.finds committed pending id collection.id reference = true) ∧
      (∀ text ∈ visits.filterMap Visit.storedFileId?, before.findsFile committed text = true) ∧
      ∃ files given stored placed left,
        Returns (filesToStore (visits.filterMap Visit.newFile?)) committed before files given ∧
        Returns (files.forM fun file => @insert .file file) committed given ⟨⟩ stored ∧
        collection.schema.changeContent placeFiles content (files.map StoredFile.reference) =
          .ok (placed, left) ∧
        document = {
          id, collectionId := collection.id, content := placed, createdAt := stored.supply.now } ∧
        @Work.insert stored committed .document document = (.ok (), after) := by
  simp only [newDocument, returns_bind, returns_ofExcept, returns_guard_bind, returns_now,
    returns_insert, returns_pure]
  constructor
  · rintro ⟨issues, _, ⟨hissues, rfl⟩, hvalid, visits, _, ⟨hvisits, rfl⟩, missing, _, hmissing, hnone,
      lost, _, hlost, hnoneLost, files, given, hfiles, _, stored, hstored, ⟨placed, left⟩, _,
      ⟨hplaced, rfl⟩, _, _, ⟨rfl, rfl⟩, _, _, hinsert, rfl, rfl⟩
    rw [List.isEmpty_iff.1 hvalid] at hissues
    rw [List.isEmpty_iff.1 hnone] at hmissing
    rw [List.isEmpty_iff.1 hnoneLost] at hlost
    obtain ⟨hdocuments, rfl⟩ :=
      (returns_missingReferences (reads_referenceHolds pending id collection.id)).1 hmissing
    obtain ⟨hfound, rfl⟩ := returns_missingFiles.1 hlost
    exact ⟨hissues, visits, hvisits, hdocuments, hfound, files, given, stored, placed, left, hfiles,
      hstored, hplaced, rfl, hinsert⟩
  · rintro ⟨hissues, visits, hvisits, hdocuments, hfound, files, given, stored, placed, left, hfiles,
      hstored, hplaced, rfl, hinsert⟩
    have hmissing := (returns_missingReferences (reads_referenceHolds pending id collection.id)).2
      ⟨hdocuments, Eq.refl before⟩
    have hlost := returns_missingFiles.2 ⟨hfound, rfl⟩
    exact ⟨[], before, ⟨hissues, rfl⟩, rfl, visits, before, ⟨hvisits, rfl⟩, [], before, hmissing, rfl,
      [], before, hlost, rfl, files, given, hfiles, ⟨⟩, stored, hstored, (placed, left), stored,
      ⟨hplaced, rfl⟩, _, stored, ⟨rfl, rfl⟩, (), after, hinsert, rfl, rfl⟩

theorem newDocument_adds (validator : Validator) (pending : Pending) (id : DocumentId)
    (collection : Collection) (content : Json) :
    Adds (newDocument validator pending id collection content) fun final document added =>
      ∃ files visits, added = { documents := [document], files } ∧
        DocumentAdded validator pending id collection content final document files visits := by
  intro committed before document after h
  obtain ⟨hissues, visits, hvisits, hdocuments, hstored, files, given, inserted, placed, left, hfiles,
    hinserted, hplaced, rfl, hinsert⟩ := returns_newDocument.1 h
  obtain ⟨hdata, hstaged⟩ := returns_filesToStore hfiles
  have hseen : ∀ more, Tables.Unique committed (before.staged ++ more) →
      ReferencesFound pending id collection.id (committed ++ (before.staged ++ more)) visits :=
    fun more hu => ⟨fun reference hr => Work.located_of_finds hu (hdocuments reference hr),
      fun text ht => Work.contains_of_findsFile (hstored text ht)⟩
  have hadded := ((insertFiles_adding hinserted).trans
    (.of_insert .document (by decide) hinsert)).of_staged_eq hstaged
  refine (Adding.after_read (fun final => ReferencesFound pending id collection.id final visits) hseen
    hadded).mono ?_
  rintro final added ⟨hfound, _, _, rfl, rfl, rfl⟩
  rw [Tables.files_append_single]
  exact ⟨files, visits, rfl, rfl, rfl, hissues, hvisits, hdata, ⟨left, hplaced⟩, hfound⟩

theorem returns_loadCollection {id : CollectionId} {collection : Collection} :
    Returns (loadCollection id) committed before collection after ↔
      before.get? committed .collection id = some collection ∧ before = after := by
  constructor
  · intro h
    obtain ⟨found, middle, hget, h⟩ := returns_bind.1 h
    obtain ⟨rfl, rfl⟩ := returns_get?.1 hget
    split at h
    · next hfound =>
        obtain ⟨rfl, rfl⟩ := returns_pure.1 h
        exact ⟨hfound, rfl⟩
    · exact absurd h returns_throw
  · rintro ⟨hfound, rfl⟩
    refine returns_bind.2 ⟨_, before, returns_get?.2 ⟨rfl, rfl⟩, ?_⟩
    simp only [hfound, returns_pure, and_self]

/-- The collection that an operation starts from is still there in the end. -/
theorem Adds.loadCollection_bind {α : Type} {collectionId : CollectionId} {f : Collection → Operation α}
    {fact : Collection → Tables → α → Tables → Prop}
    (h : ∀ collection, Adds (f collection) (fact collection)) :
    Adds (loadCollection collectionId >>= f) fun final a added =>
      ∃ collection, final.get? .collection collectionId = some collection ∧
        fact collection final a added := by
  intro committed before a after hr
  obtain ⟨collection, _, hload, hr⟩ := returns_bind.1 hr
  obtain ⟨hcollection, rfl⟩ := returns_loadCollection.1 hload
  have hseen : ∀ more, Tables.Unique committed (before.staged ++ more) →
      (committed ++ (before.staged ++ more)).get? .collection collectionId = some collection :=
    fun more hu => Work.get?_eq_some_final (hu .collection (by decide)) hcollection
  have hadding := h collection committed before a after hr
  refine (Adding.after_read (fun final => final.get? .collection collectionId = some collection)
    hseen hadding).mono ?_
  exact fun final added hf => ⟨collection, hf⟩

theorem returns_freshFor {α : Type} {kind : Kind} {as : List α} {ids : List (RealId kind)}
    (h : Returns (freshFor kind as) committed before ids after) :
    ids.length = as.length ∧ after.staged = before.staged := by
  induction as generalizing before ids with
  | nil =>
      simp only [freshFor, returns_pure] at h
      obtain ⟨rfl, rfl⟩ := h
      exact ⟨rfl, rfl⟩
  | cons a as ih =>
      simp only [freshFor, returns_bind, returns_fresh, returns_pure] at h
      obtain ⟨id, middle, hfresh, rest, _, hrest, rfl, rfl⟩ := h
      obtain ⟨hlength, hstaged⟩ := ih hrest
      cases hfresh
      exact ⟨by simp [hlength], hstaged⟩

end Operation

/-- A document of a collection that exists, made of the handed-in content with proto ids resolved. -/
structure ResolvedDocumentAdded (validator : Validator) (pending : Pending) (resolution : Resolution)
    (id : DocumentId) (collectionId : CollectionId) (handedIn : Json) (final : Tables)
    (document : Document) (files : List StoredFile) (visits : List Visit) (collection : Collection)
    (content : Json) : Prop where
  collection_eq : final.get? .collection collectionId = some collection
  content_eq : collection.schema.resolveContent resolution handedIn = .ok content
  added : DocumentAdded validator pending id collection content final document files visits

/-- A document made of handed-in content of which the proto ids were resolved. -/
def DocumentResolved (validator : Validator) (pending : Pending) (resolution : Resolution)
    (id : DocumentId) (collectionId : CollectionId) (handedIn : Json) (final : Tables)
    (document : Document) (files : List StoredFile) : Prop :=
  ∃ visits collection content, ResolvedDocumentAdded validator pending resolution id collectionId
    handedIn final document files visits collection content

theorem DocumentResolved.collectionId_eq {validator : Validator} {pending : Pending}
    {resolution : Resolution} {id : DocumentId} {collectionId : CollectionId} {handedIn : Json}
    {final : Tables} {document : Document} {files : List StoredFile}
    (h : DocumentResolved validator pending resolution id collectionId handedIn final document files) :
    document.collectionId = collectionId := by
  obtain ⟨visits, collection, content, h⟩ := h
  exact h.added.collectionId_eq.trans (Tables.id_of_get? h.collection_eq)

theorem DocumentResolved.id_eq {validator : Validator} {pending : Pending} {resolution : Resolution}
    {id : DocumentId} {collectionId : CollectionId} {handedIn : Json} {final : Tables}
    {document : Document} {files : List StoredFile}
    (h : DocumentResolved validator pending resolution id collectionId handedIn final document files) :
    document.id = id := by
  obtain ⟨visits, collection, content, h⟩ := h
  exact h.added.id_eq

/-- Documents made of the given specifications under the given ids, each with its files. -/
structure DocumentsAdded (validator : Validator) (specs : List DocumentSpec) (final : Tables)
    (documents : List Document) (added : Tables) (ids : List DocumentId) (pending : Pending)
    (resolution : Resolution) (stored : List (Document × List StoredFile)) : Prop where
  length_eq : ids.length = specs.length
  pending_eq : pending = { documents := ids.zip (specs.map DocumentSpec.collectionId) }
  resolution_eq : resolution = { documents := IdMapping.ofIds ids }
  each : List.Forall₂ (fun entry document =>
    DocumentResolved validator pending resolution entry.1 entry.2.collectionId entry.2.content final
      document.1 document.2) (ids.zip specs) stored
  documents_eq : documents = stored.map Prod.fst
  added_eq : added = { documents, files := stored.flatMap Prod.snd }

namespace Operation

theorem newResolvedDocument_adds (validator : Validator) (pending : Pending) (resolution : Resolution)
    (id : DocumentId) (collectionId : CollectionId) (handedIn : Json) :
    Adds (newResolvedDocument validator pending resolution id collectionId handedIn)
      fun final document added => ∃ files, added = { documents := [document], files } ∧
        DocumentResolved validator pending resolution id collectionId handedIn final document files := by
  refine (Adds.loadCollection_bind fun collection => Adds.ofExcept_bind fun content =>
    newDocument_adds validator pending id collection content).mono ?_
  rintro final document added ⟨collection, hfound, content, hcontent, files, visits, hrows, hadded⟩
  exact ⟨files, hrows, visits, collection, content, hfound, hcontent, hadded⟩

/-- Creates documents one after another, each in its collection as the transaction sees it then. -/
def newDocuments (validator : Validator) (pending : Pending) (resolution : Resolution)
    (specs : List (DocumentId × DocumentSpec)) : Operation (List Document) :=
  specs.mapM fun (id, spec) =>
    newResolvedDocument validator pending resolution id spec.collectionId spec.content

theorem newDocuments_cons (validator : Validator) (pending : Pending) (resolution : Resolution)
    (id : DocumentId) (spec : DocumentSpec) (rest : List (DocumentId × DocumentSpec)) :
    newDocuments validator pending resolution ((id, spec) :: rest) = (do
      let document ← newResolvedDocument validator pending resolution id spec.collectionId spec.content
      return document :: (← newDocuments validator pending resolution rest)) := by
  rw [newDocuments, List.mapM_cons]
  rfl

def newBatch (validator : Validator) (specs : List DocumentSpec) : Operation (List Document) := do
  let ids ← freshFor .document specs
  let resolution : Resolution := { documents := .ofIds ids }
  let pending : Pending := { documents := ids.zip (specs.map DocumentSpec.collectionId) }
  newDocuments validator pending resolution (ids.zip specs)

/-- Documents are added one after another, each with its files. -/
theorem newDocuments_adds (validator : Validator) (pending : Pending) (resolution : Resolution)
    (specs : List (DocumentId × DocumentSpec)) :
    Adds (newDocuments validator pending resolution specs) fun final documents added =>
      ∃ stored : List (Document × List StoredFile), documents = stored.map Prod.fst ∧
        added = { documents, files := stored.flatMap Prod.snd } ∧
        List.Forall₂ (fun entry document =>
          DocumentResolved validator pending resolution entry.1 entry.2.collectionId entry.2.content
            final document.1 document.2) specs stored := by
  refine (Adds.mapM fun entry _ => newResolvedDocument_adds validator pending resolution entry.1
    entry.2.collectionId entry.2.content).mono ?_
  exact fun final documents added hadded => hadded.of_documents

/-- A document in a collection that is there, made of the content as it was handed in. -/
theorem createDocument_adds (validator : Validator) (collectionId : CollectionId) (content : Json) :
    Adds (do
      let collection ← loadCollection collectionId
      let id ← fresh .document
      newDocument validator {} id collection content) fun final document added =>
      ∃ files id collection visits, added = { documents := [document], files } ∧
        final.get? .collection collectionId = some collection ∧
        DocumentAdded validator {} id collection content final document files visits := by
  refine (Adds.loadCollection_bind fun collection => Adds.fresh_bind fun id =>
    newDocument_adds validator {} id collection content).mono ?_
  rintro final document added ⟨collection, hfound, id, files, visits, hrows, hadded⟩
  exact ⟨files, id, collection, visits, hrows, hfound, hadded⟩

/-- Documents in collections that are there, made under new ids that stand for their positions. -/
theorem newBatch_adds (validator : Validator) (specs : List DocumentSpec) :
    Adds (newBatch validator specs) fun final documents added =>
      ∃ ids pending resolution stored,
        DocumentsAdded validator specs final documents added ids pending resolution stored := by
  intro committed before documents after h
  obtain ⟨ids, middle, hids, h⟩ := returns_bind.1 h
  obtain ⟨hlength, hstaged⟩ := returns_freshFor hids
  have hadding := newDocuments_adds _ _ _ _ committed middle documents after h
  refine (hadding.mono ?_).of_staged_eq hstaged
  rintro final added ⟨stored, hdocuments, hrows, heach⟩
  exact ⟨ids, _, _, stored, hlength, rfl, rfl, heach, hdocuments, hrows⟩

end Operation

end ContentStore

import ContentStore.Proofs.Content.Plain
import ContentStore.Proofs.Engine.MirroredDocuments

/-!
# Drafts of documents

The creation of a document first looks at its content and at the store, and then makes the document and
its files under new ids. The outcome of the looking is a draft. Content that names no id which is still to
be given has the same draft whatever documents and files with such ids there are beside the old ones.
-/

namespace ContentStore

/-! ## Ids to come -/

namespace Supply

/-- An id that the supply has not given yet. -/
def Gives (supply : Supply) (kind : Kind) (id : RealId kind) : Prop :=
  ∃ n, supply.used ≤ n ∧ id = (supply.suffix n).toId kind

variable {supply : Supply} {kind : Kind} {id : RealId kind} {count : Nat} {t rows : Tables}

theorem Gives.of_skip (h : (supply.skip count).Gives kind id) : supply.Gives kind id := by
  obtain ⟨n, hn, hid⟩ := h
  exact ⟨n, Nat.le_trans (Nat.le_add_right _ _) hn, hid⟩

theorem Gave.gives {now : Supply} (h : Gave supply now kind id) : supply.Gives kind id := by
  obtain ⟨n, hle, -, hid⟩ := h
  exact ⟨n, hle, hid⟩

theorem NewFor.not_contains_of_gives (h : supply.NewFor t) (hid : supply.Gives kind id) :
    t.contains kind id = false := by
  obtain ⟨n, hn, rfl⟩ := hid
  exact h.free kind n hn

/-- A supply stays new when rows come to the tables whose ids it has given. -/
theorem NewFor.append (h : supply.NewFor t)
    (hrows : ∀ kind, ∀ e ∈ rows.rows kind, ∃ n < supply.used + count, e.id = (supply.suffix n).toId kind) :
    (supply.skip count).NewFor (t ++ rows) where
  distinct := h.distinct
  free kind n hn := by
    have hlater : supply.used + count ≤ n := hn
    rw [Tables.contains_append, Bool.or_eq_false_iff]
    refine ⟨h.free kind n (Nat.le_trans (Nat.le_add_right _ _) hlater), Bool.eq_false_iff.2 ?_⟩
    intro hcontains
    obtain ⟨e, he, heq⟩ := Tables.contains_iff.1 hcontains
    obtain ⟨m, hm, hid⟩ := hrows kind e he
    have hsame : m = n := h.distinct (IdSuffix.toId_injective kind (hid.symm.trans heq))
    omega

def filesAt (supply : Supply) : Nat → List (String × String × List UInt8) → List StoredFile
  | _, [] => []
  | number, (name, mimeType, content) :: rest =>
      { id := (supply.suffix number).toId .file, name, mimeType, content, createdAt := supply.now } ::
        supply.filesAt (number + 1) rest

@[simp] theorem filesAt_skip (supply : Supply) (count number : Nat)
    (news : List (String × String × List UInt8)) :
    (supply.skip count).filesAt number news = supply.filesAt number news := by
  induction news generalizing number with
  | nil => rfl
  | cons new rest ih =>
      rw [filesAt, filesAt, ih]
      rfl

theorem map_data_filesAt (supply : Supply) (number : Nat) (news : List (String × String × List UInt8)) :
    (supply.filesAt number news).map StoredFile.data = news := by
  induction news generalizing number with
  | nil => rfl
  | cons new rest ih => simp [filesAt, ih, StoredFile.data]

theorem map_id_filesAt (supply : Supply) (number : Nat) (news : List (String × String × List UInt8)) :
    (supply.filesAt number news).map StoredFile.id =
      (List.range' number news.length).map fun n => (supply.suffix n).toId .file := by
  induction news generalizing number with
  | nil => rfl
  | cons new rest ih => simp [filesAt, ih, List.range'_succ]

theorem exists_number_of_mem_filesAt {number : Nat} {news : List (String × String × List UInt8)}
    {file : StoredFile} (h : file ∈ supply.filesAt number news) :
    ∃ n, number ≤ n ∧ n < number + news.length ∧ file.id = (supply.suffix n).toId .file := by
  have hid := List.mem_map_of_mem (f := StoredFile.id) h
  rw [map_id_filesAt] at hid
  obtain ⟨n, hn, heq⟩ := List.mem_map.1 hid
  obtain ⟨hfirst, hlast⟩ := List.mem_range'_1.1 hn
  exact ⟨n, hfirst, hlast, heq.symm⟩

end Supply

/-- Rows under ids that a supply was still to give, none of them a collection. -/
structure Tables.MadeBy (supply : Supply) (rows : Tables) : Prop where
  collections : rows.collections = []
  given : ∀ kind, ∀ e ∈ rows.rows kind, supply.Gives kind e.id

namespace Tables

def finds (t : Tables) (reference : DocumentReference) : Bool :=
  match RealId.ofText? .document reference.documentId with
  | none => false
  | some id =>
      let document : Option Document := t.get? .document id
      document.any fun d => d.collectionId.text == reference.collectionId

def findsFile (t : Tables) (text : String) : Bool :=
  match RealId.ofText? .file text with
  | none => false
  | some id => t.contains .file id

end Tables

namespace Work

variable {work : Work} {committed : Tables}

/-- A document that is neither in creation nor pending nor staged is found in the store or not at all. -/
theorem finds_eq {pending : Pending} {ownId : DocumentId} {own : CollectionId}
    {reference : DocumentReference}
    (h : ∀ id, RealId.ofText? .document reference.documentId = some id → id ≠ ownId ∧
      pending.documents.lookup id = none ∧ work.staged.get? .document id = none) :
    work.finds committed pending ownId own reference = committed.finds reference := by
  unfold finds Tables.finds
  cases hread : RealId.ofText? .document reference.documentId with
  | none => rfl
  | some id =>
      obtain ⟨hne, hpending, hstaged⟩ := h id hread
      have hget : work.get? committed .document id = committed.get? .document id := by
        rw [Work.get?, hstaged, Option.none_or]
      simp only [ownerOf?, if_neg hne, hpending, hget, Option.any_map]

theorem findsFile_eq {text : String}
    (h : ∀ id, RealId.ofText? .file text = some id → work.staged.get? .file id = none) :
    work.findsFile committed text = committed.findsFile text := by
  unfold findsFile Tables.findsFile
  cases hread : RealId.ofText? .file text with
  | none => rfl
  | some id =>
      simp only [Work.get?, h id hread, Option.none_or]
      rfl

end Work

namespace Tables

namespace MadeBy

variable {supply : Supply} {t rows more : Tables} {kind : Kind}

theorem empty (supply : Supply) : MadeBy supply {} where
  collections := rfl
  given kind e he := by simp at he

theorem append (h : rows.MadeBy supply) (h' : more.MadeBy supply) : (rows ++ more).MadeBy supply where
  collections := by
    change rows.collections ++ more.collections = []
    rw [h.collections, h'.collections]
    rfl
  given kind e he := by
    rw [rows_append] at he
    exact (List.mem_append.1 he).elim (h.given kind e) (h'.given kind e)

theorem get?_collection (h : rows.MadeBy supply) (id : CollectionId) :
    rows.get? .collection id = none := by
  change rows.collections.find? _ = none
  rw [h.collections]
  rfl

/-- The rows may be committed to a store that the supply is new for. -/
theorem not_contains (h : rows.MadeBy supply) (hn : supply.NewFor t) :
    ∀ e ∈ rows.rows kind, t.contains kind e.id = false :=
  fun e he => hn.not_contains_of_gives (h.given kind e he)

end MadeBy

end Tables

/-! ## Content that names no id to come -/

/-- Content of which no document reference holds a placeholder, and which names no id of a document or of a
file that the supply is still to give. -/
structure Plain (supply : Supply) (schema : Schema) (content : Json) : Prop where
  canonical : content.Canonical
  noProtoId : ∀ references, schema.contentReferences content = .ok references →
    ∀ reference ∈ references, ∀ p : ProtoId, reference.value ≠ p.text
  noNewDocument : ∀ references, schema.contentReferences content = .ok references →
    ∀ reference ∈ references, ∀ id, supply.Gives .document id → reference.value ≠ id.text
  noNewFile : ∀ visits, schema.visitContent content = .ok visits →
    ∀ text ∈ visits.filterMap Visit.storedFileId?, ∀ id, supply.Gives .file id → text ≠ id.text

namespace Plain

variable {supply : Supply} {schema : Schema} {content : Json}

theorem skip (h : Plain supply schema content) (count : Nat) :
    Plain (supply.skip count) schema content where
  canonical := h.canonical
  noProtoId := h.noProtoId
  noNewDocument references href reference hmem id hid :=
    h.noNewDocument references href reference hmem id hid.of_skip
  noNewFile visits hv text hmem id hid := h.noNewFile visits hv text hmem id hid.of_skip

theorem resolveContent (h : Plain supply schema content) {visits : List Visit}
    (hv : schema.visitContent content = .ok visits) (resolution : Resolution) :
    schema.resolveContent resolution content = .ok content := by
  have href : schema.contentReferences content = .ok (visits.flatMap Visit.references) :=
    map_eq_ok_iff.2 ⟨visits, hv, rfl⟩
  exact Schema.resolveContent_of_plain h.canonical href (h.noProtoId _ href) resolution

end Plain

/-! ## The checks of a new document -/

namespace Operation

def unfound (finds : DocumentReference → Bool) (references : List DocumentReference) :
    List DocumentReference :=
  (references.filter fun r => !finds r).foldl
    (fun found r => if found.contains r then found else found ++ [r]) []

def unfoundFiles (findsFile : String → Bool) (ids : List String) : List String :=
  (SortedSet.ofList (ids.filter fun text => !findsFile text)).toList

def checkedReferences (finds : DocumentReference → Bool) (findsFile : String → Bool)
    (visits : List Visit) : Except EngineError (List Visit) :=
  match unfound finds (visits.filterMap Visit.documentReference?),
      unfoundFiles findsFile (visits.filterMap Visit.storedFileId?) with
  | [], [] => .ok visits
  | [], lost => .error (.filesNotFound lost)
  | missing, _ => .error (.referencedDocumentsNotFound missing)

/-- The check of content by itself: the visits of content without issues. -/
def checkedContent (validator : Validator) (collection : Collection) (content : Json) :
    Except EngineError (List Visit) :=
  match validator.validate collection.schema content, collection.schema.visitContent content with
  | .error e, _ => .error (.brokenSchema e)
  | .ok (issue :: issues), _ => .error (.documentContentNotValid collection.id (issue :: issues))
  | .ok [], .error e => .error (.brokenSchema e)
  | .ok [], .ok visits => .ok visits

/-- The checks of a new document, by what they find in the store: the visits of content that passes. -/
def checked (validator : Validator) (collection : Collection) (content : Json)
    (finds : DocumentReference → Bool) (findsFile : String → Bool) : Except EngineError (List Visit) :=
  (checkedContent validator collection content).bind (checkedReferences finds findsFile)

variable {validator : Validator} {collection : Collection} {content : Json}
  {finds finds' : DocumentReference → Bool} {findsFile findsFile' : String → Bool} {visits : List Visit}

theorem visitContent_of_checkedContent (h : checkedContent validator collection content = .ok visits) :
    collection.schema.visitContent content = .ok visits := by
  unfold checkedContent at h
  split at h
  · cases h
  · cases h
  · cases h
  · next hv =>
      cases h
      exact hv

theorem eq_of_checkedReferences {found : List Visit}
    (h : checkedReferences finds findsFile visits = .ok found) : found = visits := by
  unfold checkedReferences at h
  split at h <;> cases h
  rfl

theorem visitContent_of_checked
    (h : checked validator collection content finds findsFile = .ok visits) :
    collection.schema.visitContent content = .ok visits := by
  unfold checked at h
  cases hc : checkedContent validator collection content with
  | error e => simp [hc, Except.bind] at h
  | ok found =>
      rw [hc] at h
      rw [eq_of_checkedReferences h]
      exact visitContent_of_checkedContent hc

/-- The checks ask the store for what the content refers to. -/
theorem checked_congr
    (hd : ∀ visits, collection.schema.visitContent content = .ok visits →
      ∀ reference ∈ visits.filterMap Visit.documentReference?, finds' reference = finds reference)
    (hf : ∀ visits, collection.schema.visitContent content = .ok visits →
      ∀ text ∈ visits.filterMap Visit.storedFileId?, findsFile' text = findsFile text) :
    checked validator collection content finds' findsFile' =
      checked validator collection content finds findsFile := by
  unfold checked
  cases hc : checkedContent validator collection content with
  | error e => rfl
  | ok visits =>
      have hv := visitContent_of_checkedContent hc
      have hreferences : (visits.filterMap Visit.documentReference?).filter (fun r => !finds' r) =
          (visits.filterMap Visit.documentReference?).filter fun r => !finds r :=
        List.filter_congr fun reference hr => by rw [hd visits hv reference hr]
      have hfiles : (visits.filterMap Visit.storedFileId?).filter (fun text => !findsFile' text) =
          (visits.filterMap Visit.storedFileId?).filter fun text => !findsFile text :=
        List.filter_congr fun text ht => by rw [hf visits hv text ht]
      simp only [Except.bind, checkedReferences, unfound, unfoundFiles, hreferences, hfiles]

theorem throw_bind_apply {α β : Type} (e : EngineError) (f : α → Operation β) (committed : Tables)
    (work : Work) : ((throw e : Operation α) >>= f) committed work = (.error e, work) :=
  bind_apply _ _ _ _

/-- A new document is checked, and then it is stored. -/
theorem newDocument_eq (validator : Validator) (pending : Pending) (id : DocumentId)
    (collection : Collection) (content : Json) (committed : Tables) (work : Work) :
    newDocument validator pending id collection content committed work =
      match checked validator collection content (work.finds committed pending id collection.id)
          (work.findsFile committed) with
      | .error e => (.error e, work)
      | .ok visits => storeDocument id collection content visits committed work := by
  unfold newDocument checked checkedContent
  rw [bind_apply, ofExcept_apply]
  cases validator.validate collection.schema content with
  | error e => rfl
  | ok issues =>
      cases issues with
      | cons issue issues => exact throw_bind_apply _ _ _ _
      | nil =>
          simp only [List.isEmpty_nil, if_true]
          rw [bind_apply, ofExcept_apply]
          cases collection.schema.visitContent content with
          | error e => rfl
          | ok visits =>
              have hmissing : missingReferences (referenceHolds pending id collection.id)
                  (visits.filterMap Visit.documentReference?) committed work =
                    (.ok (unfound (work.finds committed pending id collection.id)
                      (visits.filterMap Visit.documentReference?)), work) :=
                reads_missingReferences (reads_referenceHolds pending id collection.id) _ work
              have hlost : missingFiles (visits.filterMap Visit.storedFileId?) committed work =
                  (.ok (unfoundFiles (work.findsFile committed)
                    (visits.filterMap Visit.storedFileId?)), work) := reads_missingFiles _ work
              simp only [Except.bind, checkedReferences]
              rw [bind_apply, hmissing]
              cases unfound (work.finds committed pending id collection.id)
                (visits.filterMap Visit.documentReference?) with
              | cons reference missing => exact throw_bind_apply _ _ _ _
              | nil =>
                  simp only [List.isEmpty_nil, if_true]
                  rw [bind_apply, hlost]
                  cases unfoundFiles (work.findsFile committed)
                    (visits.filterMap Visit.storedFileId?) with
                  | cons text lost => exact throw_bind_apply _ _ _ _
                  | nil => rfl

end Operation

/-! ## Drafts -/

/-- What a document is made of: its collection, content that has passed the checks, and the visits of it. -/
structure Draft where
  collection : Collection
  content : Json
  visits : List Visit

/-- The draft for a spec, by what is found in a store. -/
def DocumentSpec.draft (validator : Validator) (t : Tables) (spec : DocumentSpec) :
    Except EngineError Draft :=
  match t.get? .collection spec.collectionId with
  | none => .error (.collectionNotFound spec.collectionId.text)
  | some collection =>
      (Operation.checked validator collection spec.content t.finds t.findsFile).map fun visits =>
        ⟨collection, spec.content, visits⟩

namespace DocumentSpec

variable {validator : Validator} {t : Tables} {spec : DocumentSpec}

theorem draft_of_missing (h : t.get? .collection spec.collectionId = none) :
    spec.draft validator t = .error (.collectionNotFound spec.collectionId.text) := by
  rw [draft, h]

theorem draft_of_found {collection : Collection}
    (h : t.get? .collection spec.collectionId = some collection) :
    spec.draft validator t =
      (Operation.checked validator collection spec.content t.finds t.findsFile).map fun visits =>
        ⟨collection, spec.content, visits⟩ := by
  rw [draft, h]

end DocumentSpec

namespace Draft

def news (draft : Draft) : List (String × String × List UInt8) :=
  draft.visits.filterMap Visit.newFile?

/-- The content with references to files in the places of the new ones. -/
def placed (draft : Draft) (files : List StoredFile) : Json :=
  match draft.collection.schema.changeContent placeFiles draft.content
      (files.map StoredFile.reference) with
  | .ok (content, _) => content
  | .error _ => draft.content

end Draft

/-- A draft with the numbers of the suffix for its document and of the first one for its files. -/
structure Numbered where
  draft : Draft
  number : Nat
  first : Nat

namespace Numbered

variable (numbered : Numbered) (supply : Supply)

def files : List StoredFile :=
  supply.filesAt numbered.first numbered.draft.news

def document : Document where
  id := (supply.suffix numbered.number).toId .document
  collectionId := numbered.draft.collection.id
  content := numbered.draft.placed (numbered.files supply)
  createdAt := supply.now

def rows : Tables where
  documents := [numbered.document supply]
  files := numbered.files supply

def numbers : List Nat :=
  numbered.number :: List.range' numbered.first numbered.draft.news.length

variable {numbered supply}

theorem exists_number {kind : Kind} {e : Entity kind} (h : e ∈ (numbered.rows supply).rows kind) :
    ∃ n ∈ numbered.numbers, e.id = (supply.suffix n).toId kind := by
  cases kind with
  | document =>
      cases List.mem_singleton.1 h
      exact ⟨numbered.number, List.mem_cons_self, rfl⟩
  | file =>
      obtain ⟨n, hfirst, hlast, hid⟩ := Supply.exists_number_of_mem_filesAt h
      exact ⟨n, List.mem_cons_of_mem _ (List.mem_range'_1.2 ⟨hfirst, hlast⟩), hid⟩
  | _ => cases h

theorem rows_madeBy (h : ∀ n ∈ numbered.numbers, supply.used ≤ n) :
    (numbered.rows supply).MadeBy supply where
  collections := rfl
  given kind e he := by
    obtain ⟨n, hn, hid⟩ := exists_number he
    exact ⟨n, h n hn, hid⟩

variable (numbered supply)

@[simp] theorem files_skip (count : Nat) : numbered.files (supply.skip count) = numbered.files supply :=
  supply.filesAt_skip count _ _

@[simp] theorem document_skip (count : Nat) :
    numbered.document (supply.skip count) = numbered.document supply := by
  rw [document, document, files_skip]
  rfl

@[simp] theorem rows_skip (count : Nat) : numbered.rows (supply.skip count) = numbered.rows supply := by
  rw [rows, rows, files_skip, document_skip]

end Numbered

namespace Operation

/-- Stored files come after the others, under the next ids. -/
theorem returns_filesToStore_at {committed : Tables} {work : Work}
    (news : List (String × String × List UInt8)) :
    Returns (filesToStore news) committed work (work.supply.filesAt work.supply.used news)
      (work.skip news.length) := by
  induction news generalizing work with
  | nil => exact returns_pure.2 ⟨rfl, rfl⟩
  | cons new rest ih =>
      obtain ⟨name, mimeType, content⟩ := new
      have hrest : Returns (filesToStore rest) committed (work.skip 1)
          (work.supply.filesAt (work.supply.used + 1) rest) (work.skip (rest.length + 1)) := by
        rw [← Supply.filesAt_skip work.supply 1, Nat.add_comm rest.length, ← Work.skip_skip]
        exact ih
      simp only [filesToStore, returns_bind, returns_fresh, returns_now, returns_pure]
      exact ⟨_, work.skip 1, rfl, _, _, ⟨rfl, rfl⟩, _, _, hrest, rfl, rfl⟩

theorem returns_insertFiles {committed rows : Tables} {supply : Supply} {budget : Budget}
    {files : List StoredFile} (hbudget : budget.Allows files.length)
    (hfree : ∀ file ∈ files, (committed ++ rows).contains .file file.id = false)
    (hnodup : (files.map StoredFile.id).Nodup) :
    Returns (files.forM fun file => @insert .file file) committed ⟨rows, budget, supply⟩ ⟨⟩
      ⟨rows ++ { files }, budget.less files.length, supply⟩ := by
  induction files generalizing rows budget with
  | nil =>
      rw [show rows ++ ({} : Tables) = rows from Tables.append_empty rows]
      refine returns_pure.2 ⟨rfl, ?_⟩
      cases budget <;> rfl
  | cons file rest ih =>
      obtain ⟨hfirst, hrest⟩ := List.nodup_cons.1 hnodup
      have hpush : ∀ t : Tables, t ++ { files := file :: rest } =
          @Tables.push t .file file ++ { files := rest } := by
        intro t
        rw [Tables.push_eq_append, Tables.append_assoc]
        rfl
      have hlater : ∀ other ∈ rest,
          (committed ++ @Tables.push rows .file file).contains .file other.id = false := by
        intro other ho
        rw [Tables.push_eq_append, ← Tables.append_assoc, Tables.contains_append,
          hfree other (by simp [ho]), Bool.false_or, Bool.eq_false_iff]
        intro hcontains
        obtain ⟨found, hfound, hid⟩ := Tables.contains_iff.1 hcontains
        cases List.mem_singleton.1 (@Tables.rows_single_self .file file ▸ hfound)
        exact hfirst (List.mem_map.2 ⟨other, ho, hid.symm⟩)
      rw [List.length_cons, Nat.add_comm] at hbudget
      have hhere := @Work.insert_of_allows committed ⟨rows, budget, supply⟩ .file file
        (hbudget.mono (Nat.le_add_right _ _)) (hfree file (by simp))
      rw [List.forM_eq_forM, List.forM_cons, returns_bind, hpush, List.length_cons, Nat.add_comm,
        ← Budget.less_less]
      exact ⟨⟨⟩, _, returns_insert.2 hhere, ih hbudget.less hlater hrest⟩

/-- The rows of a draft are stored under a new id for the document and the next ids for the files, if the
budget lets all of them through. -/
theorem returns_storeDocument {committed rows : Tables} {supply : Supply} {budget : Budget}
    {numbered : Numbered} (hbudget : budget.Allows (numbered.draft.news.length + 1))
    (hn : supply.NewFor (committed ++ rows)) (hfirst : numbered.first = supply.used)
    (hfree : (committed ++ rows).contains .document ((supply.suffix numbered.number).toId .document) = false)
    (hv : numbered.draft.collection.schema.visitContent numbered.draft.content =
      .ok numbered.draft.visits) :
    Returns (storeDocument ((supply.suffix numbered.number).toId .document) numbered.draft.collection
        numbered.draft.content numbered.draft.visits) committed ⟨rows, budget, supply⟩
      (numbered.document supply)
      ⟨rows ++ numbered.rows supply, budget.less (numbered.draft.news.length + 1),
        supply.skip numbered.draft.news.length⟩ := by
  obtain ⟨⟨content, left⟩, hplaced⟩ := Schema.exists_changeContent_of_visitContent hv placeFiles
    ((numbered.files supply).map StoredFile.reference)
  have hcontent : numbered.draft.placed (numbered.files supply) = content := by
    unfold Draft.placed
    rw [hplaced]
  have hlength : (numbered.files supply).length = numbered.draft.news.length := by
    rw [Numbered.files, ← List.length_map (f := StoredFile.data), Supply.map_data_filesAt]
  have hfiles : Returns (filesToStore numbered.draft.news) committed ⟨rows, budget, supply⟩
      (numbered.files supply) ⟨rows, budget, supply.skip numbered.draft.news.length⟩ := by
    unfold Numbered.files
    rw [hfirst]
    exact returns_filesToStore_at _
  have hinserted : Returns ((numbered.files supply).forM fun file => @insert .file file) committed
      ⟨rows, budget, supply.skip numbered.draft.news.length⟩ ⟨⟩
      ⟨rows ++ { files := numbered.files supply }, budget.less numbered.draft.news.length,
        supply.skip numbered.draft.news.length⟩ := by
    rw [← hlength]
    refine returns_insertFiles ?_ (fun file hfile => ?_) ?_
    · rw [hlength]
      exact hbudget.mono (Nat.le_add_right _ _)
    · obtain ⟨n, hle, -, hid⟩ := Supply.exists_number_of_mem_filesAt hfile
      rw [hid]
      exact hn.free .file n (hfirst ▸ hle)
    · rw [Numbered.files, Supply.map_id_filesAt]
      exact List.Nodup.map ((IdSuffix.toId_injective .file).comp hn.distinct) (List.nodup_range' 1)
  have hrows : rows ++ numbered.rows supply =
      @Tables.push (rows ++ { files := numbered.files supply }) .document (numbered.document supply) := by
    rw [Tables.push_eq_append, Tables.append_assoc, Tables.files_append_single]
    rfl
  have hdocument : (committed ++ (rows ++ { files := numbered.files supply })).contains .document
      (numbered.document supply).id = false := by
    rw [← Tables.append_assoc, Tables.contains_append, Bool.or_eq_false_iff]
    exact ⟨hfree, rfl⟩
  rw [hrows, ← Budget.less_less]
  simp only [storeDocument, returns_bind, returns_ofExcept, returns_now]
  refine ⟨_, _, hfiles, ⟨⟩, _, hinserted, (content, left), _, ⟨hplaced, rfl⟩, _, _, ⟨rfl, rfl⟩,
    returns_stage.2 ⟨?_, @Work.insert_of_allows _ _ .document _ hbudget.less hdocument⟩⟩
  rw [Numbered.document, hcontent]
  rfl

end Operation

end ContentStore

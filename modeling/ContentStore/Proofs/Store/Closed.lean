import ContentStore.Engine.Documents
import ContentStore.Proofs.Store.Rows

/-!
# Closed tables and valid documents

Tables are closed when everything that their rows refer to is there, also from inside the content of
documents. Rows that are supported by some tables stay supported when the tables grow.
-/

namespace ContentStore.Tables

/-- A reference in content names a document, in the collection that it says. -/
def Names (t : Tables) (reference : DocumentReference) : Prop :=
  ∃ target : Document, t.get? .document target.id = some target ∧
    reference.documentId = target.id.text ∧ reference.collectionId = target.collectionId.text

/-- A visited document reference names a document, and a visited file refers to a stored one. -/
structure Answers (t : Tables) (visit : Visit) : Prop where
  document : visit.isDocumentRef = true →
    ∃ reference, visit.documentReference? = some reference ∧ t.Names reference
  file : visit.isFile = true → ∃ (stored : StoredFile) (name mimeType : String),
    FileValue.ofJson? visit.value = some (.stored stored.id.text name mimeType) ∧
      t.contains .file stored.id = true

/-- A document stands in a collection, along whose schema its content refers only to what is there. -/
def Carries (t : Tables) (document : Document) : Prop :=
  ∃ (collection : Collection) (visits : List Visit),
    t.get? .collection document.collectionId = some collection ∧
      collection.schema.visitContent document.content = .ok visits ∧ ∀ visit ∈ visits, t.Answers visit

/-- All that the given rows refer to is there. -/
structure Supports (t rows : Tables) : Prop where
  parents : ∀ category ∈ rows.categories, ∀ id, category.parentId = some id →
    t.contains .collectionCategory id = true
  categories : ∀ collection ∈ rows.collections, ∀ id, collection.settings.categoryId = some id →
    t.contains .collectionCategory id = true
  defaultApps : ∀ collection ∈ rows.collections, ∀ id, collection.settings.defaultAppId = some id →
    t.contains .app id = true
  targets : ∀ app ∈ rows.apps, ∀ id ∈ app.targets, t.contains .collection id = true
  documents : ∀ document ∈ rows.documents, t.Carries document

/-- All that the rows refer to is among them. -/
def Closed (t : Tables) : Prop :=
  t.Supports t

/-- A document's content, as it is stored, has no issue under its collection's schema and holds no new
file. -/
def Admits (t : Tables) (validator : Validator) (document : Document) : Prop :=
  ∃ (collection : Collection) (visits : List Visit),
    t.get? .collection document.collectionId = some collection ∧
      validator.validate collection.schema document.content = .ok [] ∧
      collection.schema.visitContent document.content = .ok visits ∧
      ∀ visit ∈ visits, visit.newFile? = none

variable {t more : Tables}

theorem get?_append_of_some {kind : Kind} {id : RealId kind} {e : Entity kind}
    (h : t.get? kind id = some e) (more : Tables) : (t ++ more).get? kind id = some e := by
  rw [get?_append, h, Option.some_or]

theorem contains_append_of_contains {kind : Kind} {id : RealId kind} (h : t.contains kind id = true)
    (more : Tables) : (t ++ more).contains kind id = true := by
  rw [contains_append, h, Bool.true_or]

theorem Names.grow {reference : DocumentReference} (h : t.Names reference) (more : Tables) :
    (t ++ more).Names reference := by
  obtain ⟨target, hget, hnames⟩ := h
  exact ⟨target, get?_append_of_some hget more, hnames⟩

theorem Answers.grow {visit : Visit} (h : t.Answers visit) (more : Tables) :
    (t ++ more).Answers visit where
  document hd :=
    let ⟨reference, hr, hnames⟩ := h.document hd
    ⟨reference, hr, hnames.grow more⟩
  file hf :=
    let ⟨stored, name, mimeType, hv, hc⟩ := h.file hf
    ⟨stored, name, mimeType, hv, contains_append_of_contains hc more⟩

theorem Carries.grow {document : Document} (h : t.Carries document) (more : Tables) :
    (t ++ more).Carries document := by
  obtain ⟨collection, visits, hget, hv, hanswers⟩ := h
  exact ⟨collection, visits, get?_append_of_some hget more, hv,
    fun visit hm => (hanswers visit hm).grow more⟩

theorem Admits.grow {validator : Validator} {document : Document} (h : t.Admits validator document)
    (more : Tables) : (t ++ more).Admits validator document := by
  obtain ⟨collection, visits, hget, hrest⟩ := h
  exact ⟨collection, visits, get?_append_of_some hget more, hrest⟩

theorem Supports.grow {rows : Tables} (h : t.Supports rows) (more : Tables) :
    (t ++ more).Supports rows where
  parents category hm id hid := contains_append_of_contains (h.parents category hm id hid) more
  categories collection hm id hid := contains_append_of_contains (h.categories collection hm id hid) more
  defaultApps collection hm id hid :=
    contains_append_of_contains (h.defaultApps collection hm id hid) more
  targets app hm id hid := contains_append_of_contains (h.targets app hm id hid) more
  documents document hm := (h.documents document hm).grow more

theorem supports_empty (t : Tables) : t.Supports {} where
  parents := by simp
  categories := by simp
  defaultApps := by simp
  targets := by simp
  documents := by simp

theorem supports_category {category : CollectionCategory}
    (h : ∀ id, category.parentId = some id → t.contains .collectionCategory id = true) :
    t.Supports (@single .collectionCategory category) where
  parents := List.forall_mem_singleton.2 h
  categories := List.forall_mem_nil _
  defaultApps := List.forall_mem_nil _
  targets := List.forall_mem_nil _
  documents := List.forall_mem_nil _

theorem supports_collection {collection : Collection}
    (hcategory : ∀ id, collection.settings.categoryId = some id →
      t.contains .collectionCategory id = true)
    (happ : ∀ id, collection.settings.defaultAppId = some id → t.contains .app id = true) :
    t.Supports (@single .collection collection) where
  parents := List.forall_mem_nil _
  categories := List.forall_mem_singleton.2 hcategory
  defaultApps := List.forall_mem_singleton.2 happ
  targets := List.forall_mem_nil _
  documents := List.forall_mem_nil _

theorem supports_app {app : App} (h : ∀ id ∈ app.targets, t.contains .collection id = true) :
    t.Supports (@single .app app) where
  parents := List.forall_mem_nil _
  categories := List.forall_mem_nil _
  defaultApps := List.forall_mem_nil _
  targets := List.forall_mem_singleton.2 h
  documents := List.forall_mem_nil _

theorem supports_documents {documents : List Document} {files : List StoredFile}
    (h : ∀ document ∈ documents, t.Carries document) : t.Supports { documents, files } where
  parents := List.forall_mem_nil _
  categories := List.forall_mem_nil _
  defaultApps := List.forall_mem_nil _
  targets := List.forall_mem_nil _
  documents := h

theorem Supports.append {a b : Tables} (ha : t.Supports a) (hb : t.Supports b) : t.Supports (a ++ b) where
  parents category hm := (List.mem_append.1 hm).elim (ha.parents category) (hb.parents category)
  categories collection hm :=
    (List.mem_append.1 hm).elim (ha.categories collection) (hb.categories collection)
  defaultApps collection hm :=
    (List.mem_append.1 hm).elim (ha.defaultApps collection) (hb.defaultApps collection)
  targets app hm := (List.mem_append.1 hm).elim (ha.targets app) (hb.targets app)
  documents document hm :=
    (List.mem_append.1 hm).elim (ha.documents document) (hb.documents document)

/-- Closed tables stay closed when rows come to them that the larger tables support. -/
theorem Closed.append (h : t.Closed) (hm : (t ++ more).Supports more) : (t ++ more).Closed :=
  (Supports.grow h more).append hm

end ContentStore.Tables

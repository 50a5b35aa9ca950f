import ContentStore.Entity.Basic

/-!
# Tables of entities

A store has one table for each kind of entity; its rows stand in the order in which they came. The same
shape holds what is committed and what one transaction has written.
-/

namespace ContentStore

/-- The rows of every kind, in the order in which they came. -/
structure Tables where
  categories : List CollectionCategory := []
  collections : List Collection := []
  apps : List App := []
  documents : List Document := []
  files : List StoredFile := []

namespace Tables

def rows (t : Tables) : (kind : Kind) → List (Entity kind)
  | .collectionCategory => t.categories
  | .collection => t.collections
  | .app => t.apps
  | .document => t.documents
  | .file => t.files

@[ext] theorem ext {a b : Tables} (h : ∀ kind, a.rows kind = b.rows kind) : a = b := by
  cases a; cases b
  have := h .collectionCategory
  have := h .collection
  have := h .app
  have := h .document
  have := h .file
  simp_all [rows]

def push (t : Tables) : {kind : Kind} → Entity kind → Tables
  | .collectionCategory, e => { t with categories := t.categories ++ [e] }
  | .collection, e => { t with collections := t.collections ++ [e] }
  | .app, e => { t with apps := t.apps ++ [e] }
  | .document, e => { t with documents := t.documents ++ [e] }
  | .file, e => { t with files := t.files ++ [e] }

@[simp] theorem rows_push_self (t : Tables) {kind : Kind} (e : Entity kind) :
    (t.push e).rows kind = t.rows kind ++ [e] := by
  cases kind <;> rfl

theorem rows_push_of_ne (t : Tables) {kind other : Kind} (h : other ≠ kind) (e : Entity kind) :
    (t.push e).rows other = t.rows other := by
  cases kind <;> cases other <;> first | rfl | exact absurd rfl h

def get? (t : Tables) (kind : Kind) (id : RealId kind) : Option (Entity kind) :=
  (t.rows kind).find? fun e => e.id = id

def contains (t : Tables) (kind : Kind) (id : RealId kind) : Bool :=
  (t.get? kind id).isSome

def append (a b : Tables) : Tables where
  categories := a.categories ++ b.categories
  collections := a.collections ++ b.collections
  apps := a.apps ++ b.apps
  documents := a.documents ++ b.documents
  files := a.files ++ b.files

instance : Append Tables := ⟨append⟩

@[simp] theorem rows_append (a b : Tables) (kind : Kind) :
    (a ++ b).rows kind = a.rows kind ++ b.rows kind := by
  cases kind <;> rfl

@[simp] theorem get?_append (a b : Tables) (kind : Kind) (id : RealId kind) :
    (a ++ b).get? kind id = (a.get? kind id).or (b.get? kind id) := by
  simp [get?]

/-- A row that is found has the id that it was looked up by. -/
theorem id_of_get? {t : Tables} {kind : Kind} {id : RealId kind} {e : Entity kind}
    (h : t.get? kind id = some e) : e.id = id := by
  simpa using List.find?_some h

/-- A row that is found is one of the table's rows. -/
theorem mem_rows_of_get? {t : Tables} {kind : Kind} {id : RealId kind} {e : Entity kind}
    (h : t.get? kind id = some e) : e ∈ t.rows kind :=
  List.mem_of_find?_eq_some h

theorem contains_iff {t : Tables} {kind : Kind} {id : RealId kind} :
    t.contains kind id = true ↔ ∃ e ∈ t.rows kind, e.id = id := by
  simp [contains, get?, List.find?_isSome]

def size (t : Tables) : Nat :=
  t.categories.length + t.collections.length + t.apps.length + t.documents.length + t.files.length

end Tables

end ContentStore

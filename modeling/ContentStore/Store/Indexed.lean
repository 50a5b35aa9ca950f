import ContentStore.Store.Transaction

/-!
# Tables with an index

The memory backend keeps the rows of a kind in the order in which they came, and beside them a hash map
from ids to places. A row is found through the map alone. The map holds each id once, with the place that
was written last, and lists its entries in an order of its own, which nothing may depend on: a commit that
moves rows brings the listed ids into the order of their places before it pairs them with the rows.
-/

namespace ContentStore

/-- The rows of one kind in the order in which they came, and the place that is kept for each id. -/
structure Table (kind : Kind) where
  rows : List (Entity kind) := []
  index : List (RealId kind × Nat) := []

/-- The order in which hash maps list their entries: any order, for each map its own. -/
structure Listing where
  list : {kind : Kind} → List (RealId kind × Nat) → List (RealId kind × Nat)
  perm : ∀ {kind : Kind} (index : List (RealId kind × Nat)), (list index).Perm index

namespace Listing

def forwards : Listing := ⟨id, fun _ => .refl _⟩

def backwards : Listing := ⟨List.reverse, List.reverse_perm⟩

def keys (listing : Listing) {kind : Kind} (index : List (RealId kind × Nat)) : List (RealId kind) :=
  (listing.list index).map Prod.fst

end Listing

namespace Table

variable {kind : Kind}

def get? (table : Table kind) (id : RealId kind) : Option (Entity kind) :=
  (table.index.lookup id).bind fun place => table.rows[place]?

def contains (table : Table kind) (id : RealId kind) : Bool :=
  (table.index.lookup id).isSome

/-- Adds a row at the end. An id that is there already is kept with the new place. -/
def push (table : Table kind) (id : RealId kind) (row : Entity kind) : Table kind where
  rows := table.rows ++ [row]
  index := (id, table.rows.length) :: table.index.filter fun entry => entry.1 != id

@[simp] theorem rows_push (table : Table kind) (id : RealId kind) (row : Entity kind) :
    (table.push id row).rows = table.rows ++ [row] := rfl

def ensureAbsent (table : Table kind) (id : RealId kind) : Except StoreError Unit :=
  if table.contains id then .error (.duplicateId kind id.text) else .ok ()

def ensureDisjoint (listing : Listing) (table other : Table kind) : Except StoreError Unit :=
  (listing.keys other.index).forM table.ensureAbsent

/-- Moves the rows of another table here: its ids in the order of their places, each with the row that
stands at its turn. -/
def absorb (listing : Listing) (table other : Table kind) : Table kind :=
  let ids := (listing.list other.index).mergeSort fun a b => a.2 ≤ b.2
  (ids.zip other.rows).foldl (fun table ((id, _), row) => table.push id row) table

end Table

structure IndexedTables where
  categories : Table .collectionCategory := {}
  collections : Table .collection := {}
  apps : Table .app := {}
  documents : Table .document := {}
  files : Table .file := {}

namespace IndexedTables

def table (t : IndexedTables) : (kind : Kind) → Table kind
  | .collectionCategory => t.categories
  | .collection => t.collections
  | .app => t.apps
  | .document => t.documents
  | .file => t.files

def push (t : IndexedTables) : {kind : Kind} → RealId kind → Entity kind → IndexedTables
  | .collectionCategory, id, e => { t with categories := t.categories.push id e }
  | .collection, id, e => { t with collections := t.collections.push id e }
  | .app, id, e => { t with apps := t.apps.push id e }
  | .document, id, e => { t with documents := t.documents.push id e }
  | .file, id, e => { t with files := t.files.push id e }

def size (t : IndexedTables) : Nat :=
  t.categories.rows.length + t.collections.rows.length + t.apps.rows.length +
    t.documents.rows.length + t.files.rows.length

def ensureDisjoint (listing : Listing) (t staged : IndexedTables) : Except StoreError Unit :=
  Kind.all.forM fun kind => (t.table kind).ensureDisjoint listing (staged.table kind)

def absorb (listing : Listing) (t staged : IndexedTables) : IndexedTables where
  categories := t.categories.absorb listing staged.categories
  collections := t.collections.absorb listing staged.collections
  apps := t.apps.absorb listing staged.apps
  documents := t.documents.absorb listing staged.documents
  files := t.files.absorb listing staged.files

def commit (listing : Listing) (t staged : IndexedTables) : Except StoreError IndexedTables := do
  t.ensureDisjoint listing staged
  return t.absorb listing staged

end IndexedTables

end ContentStore

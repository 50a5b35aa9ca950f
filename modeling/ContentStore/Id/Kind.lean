/-!
# Kinds of entities

Every entity has one of five kinds. The kind's name begins the ids of its entities. Files alone cannot
be named by their position in a pack.
-/

namespace ContentStore

inductive Kind where
  | collectionCategory
  | collection
  | app
  | document
  | file
  deriving DecidableEq, Repr

namespace Kind

def name : Kind → String
  | .collectionCategory => "CollectionCategory"
  | .collection => "Collection"
  | .app => "App"
  | .document => "Document"
  | .file => "File"

def positional (kind : Kind) : Bool :=
  kind != .file

def positionalKinds : List Kind :=
  [.collectionCategory, .collection, .app, .document]

def all : List Kind :=
  [.collectionCategory, .collection, .app, .document, .file]

def rank : Kind → Nat
  | .collectionCategory => 0
  | .collection => 1
  | .app => 2
  | .document => 3
  | .file => 4

def ofName? (name : String) : Option Kind :=
  all.find? fun kind => kind.name == name

theorem mem_all (kind : Kind) : kind ∈ all := by
  cases kind <;> decide

theorem mem_positionalKinds {kind : Kind} : kind ∈ positionalKinds ↔ kind.positional = true := by
  cases kind <;> decide

theorem name_injective {a b : Kind} (h : a.name = b.name) : a = b := by
  cases a <;> cases b <;> first | rfl | exact absurd h (by decide)

theorem rank_injective {a b : Kind} (h : a.rank = b.rank) : a = b := by
  cases a <;> cases b <;> first | rfl | exact absurd h (by decide)

@[simp] theorem ofName?_name (kind : Kind) : ofName? kind.name = some kind := by
  cases kind <;> decide

end Kind

end ContentStore

import ContentStore.Id.Proto
import ContentStore.Keyed.Sorted

/-!
# From positions to ids

A mapping says which id each position of one kind's list stands for. It changes a proto id of its own
kind at a position that it knows, and leaves every other text as it is.
-/

namespace ContentStore

/-- The text that in a schema means the collection being defined. -/
def selfCollection : String := "self"

/-- The ids of the entities at the positions of one kind's list. -/
structure IdMapping where
  kind : Kind
  entries : SortedMap Nat String

namespace IdMapping

def empty (kind : Kind) : IdMapping :=
  ⟨kind, SortedMap.empty⟩

def ofList (kind : Kind) (ids : List String) : IdMapping :=
  ⟨kind, SortedMap.ofList (ids.zipIdx.map fun (id, index) => (index, id))⟩

def ofIds {kind : Kind} (ids : List (RealId kind)) : IdMapping :=
  ofList kind (ids.map RealId.text)

def insert (m : IdMapping) (index : Nat) (id : String) : IdMapping :=
  { m with entries := m.entries.insert index id }

def get? (m : IdMapping) (p : ProtoId) : Option String :=
  if p.kind = m.kind then m.entries.get? p.index else none

def resolve (m : IdMapping) (text : String) : String :=
  ((ProtoId.ofKind? m.kind text).bind m.get?).getD text

def resolveAs (m : IdMapping) (kind : Kind) (text : Option String) : Option String :=
  text.map fun text => if m.kind = kind then m.resolve text else text

def named (m : IdMapping) : List (String × String) :=
  m.entries.entries.map fun (index, id) => (ProtoId.textOf m.kind index, id)

end IdMapping

/-- The mappings of all kinds that one operation resolves references by. -/
structure Resolution where
  categories : IdMapping := .empty .collectionCategory
  collections : IdMapping := .empty .collection
  apps : IdMapping := .empty .app
  documents : IdMapping := .empty .document

end ContentStore

import ContentStore.Engine.Config
import ContentStore.Engine.Error
import ContentStore.Content.Format

/-!
# Operations in one transaction

An operation sees the committed rows and works on a transaction of its own; what it spends from the
budget and takes from the supply stays spent when it fails. An engine runs an operation and commits what
it staged, or leaves the committed rows as they were.
-/

namespace ContentStore

/-- A step of an operation: it reads the committed rows, changes the transaction's work, and may fail. -/
abbrev Operation := ReaderT Tables (ExceptT EngineError (StateM Work))

namespace Operation

/-- The row with an id, committed or staged. -/
def get? (kind : Kind) (id : RealId kind) : Operation (Option (Entity kind)) := do
  let committed ← read
  let work ← get
  return work.get? committed kind id

def present (kind : Kind) (id : RealId kind) : Operation Bool := do
  return (← get? kind id).isSome

def fresh (kind : Kind) : Operation (RealId kind) :=
  modifyGet fun work => work.fresh kind

def freshFor {α : Type} (kind : Kind) : List α → Operation (List (RealId kind))
  | [] => return []
  | _ :: rest => do
      let id ← fresh kind
      return id :: (← freshFor kind rest)

def now : Operation Int64 := do
  return (← get).supply.now

def ofExcept {ε α : Type} (wrap : ε → EngineError) : Except ε α → Operation α
  | .ok a => return a
  | .error e => throw (wrap e)

def insert {kind : Kind} (e : Entity kind) : Operation Unit := do
  let committed ← read
  let result ← modifyGet fun work => work.insert committed e
  ofExcept .refused result

def createCategory (name icon : String) (parentId : Option CollectionCategoryId) :
    Operation CollectionCategory := do
  let result ← modifyGet fun work => work.createCategory name icon parentId
  ofExcept .refused result

end Operation

/-- Ids that the running operation has given to entities which it has yet to create. References to them
are accepted: the operation creates them before it commits, or fails as a whole. -/
structure Pending where
  collections : List CollectionId := []
  apps : List AppId := []
  documents : List (DocumentId × CollectionId) := []

/-- An engine: a store, the supply for it, the known formats and the limits. -/
structure Engine where
  store : Store := {}
  supply : Supply
  formats : FormatRegistry := .builtins
  config : EngineConfig := {}

namespace Engine

def afterWork (engine : Engine) (work : Work) (committed : Tables) : Engine :=
  { engine with store := ⟨committed, work.budget⟩, supply := work.supply }

/-- Runs an operation in a transaction: commits it if it succeeds, discards it if it fails. -/
def run {α : Type} (engine : Engine) (operation : Operation α) : Except EngineError α × Engine :=
  let committed := engine.store.committed
  let (result, work) := operation committed (Work.start engine.store.budget engine.supply)
  match result with
  | .error error => (.error error, engine.afterWork work committed)
  | .ok value =>
      match committed.commit work.staged with
      | .error error => (.error (.refused error), engine.afterWork work committed)
      | .ok committed => (.ok value, engine.afterWork work committed)

def registerFormat (engine : Engine) (format : Format) : Engine :=
  { engine with formats := engine.formats.register format }

def limitWrites (engine : Engine) (budget : Budget) : Engine :=
  { engine with store := { engine.store with budget } }

/-- The committed row with an id. -/
def get? (engine : Engine) (kind : Kind) (id : RealId kind) : Option (Entity kind) :=
  engine.store.committed.get? kind id

def rows (engine : Engine) (kind : Kind) : List (Entity kind) :=
  engine.store.committed.rows kind

def documentsOf (engine : Engine) (collection : CollectionId) : List Document :=
  engine.store.committed.documents.filter fun d => d.collectionId = collection

end Engine

end ContentStore

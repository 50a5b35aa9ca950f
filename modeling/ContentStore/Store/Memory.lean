import ContentStore.Store.Indexed
import ContentStore.Store.Session

/-!
# The memory backend

The backend holds the committed tables, which all transactions share, and for each open transaction the
tables that it has staged. A write spends from the budget before anything else is looked at. A transaction
reads its own tables first and then what is committed at the moment; its commit moves its rows over.
-/

namespace ContentStore

namespace Memory

/-- What a running transaction changes: its staged tables, and the budget and the supply of the backend. -/
structure Transaction where
  staged : IndexedTables
  budget : Budget
  supply : Supply

namespace Transaction

variable (t : Transaction) (committed : IndexedTables) {kind : Kind}

def get? (kind : Kind) (id : RealId kind) : Option (Entity kind) :=
  match (t.staged.table kind).get? id with
  | some row => some row
  | none => (committed.table kind).get? id

def rows (kind : Kind) : List (Entity kind) :=
  (committed.table kind).rows ++ (t.staged.table kind).rows

def documentsOf (collection : CollectionId) : List Document :=
  (t.rows committed .document).filter fun (d : Document) => d.collectionId = collection

/-- Stages a row whose id must be taken neither among the committed rows nor among the staged ones. -/
def insert (e : Entity kind) : Except StoreError Unit × Transaction :=
  match t.budget.spend? with
  | none => (.error .overBudget, t)
  | some budget =>
      let t := { t with budget }
      match (committed.table kind).ensureAbsent e.id with
      | .error error => (.error error, t)
      | .ok () =>
          match (t.staged.table kind).ensureAbsent e.id with
          | .error error => (.error error, t)
          | .ok () => (.ok (), { t with staged := t.staged.push e.id e })

/-- Stages a new category with an id from the supply, without a check of the id. -/
def createCategory (name icon : String) (parentId : Option CollectionCategoryId) :
    Except StoreError CollectionCategory × Transaction :=
  match t.budget.spend? with
  | none => (.error .overBudget, t)
  | some budget =>
      let (id, supply) := t.supply.fresh .collectionCategory
      let category : CollectionCategory := { id, name, icon, parentId, createdAt := supply.now }
      (.ok category,
        { staged := @IndexedTables.push t.staged .collectionCategory category.id category, budget, supply })

end Transaction

end Memory

structure Memory where
  committed : IndexedTables
  budget : Budget
  supply : Supply
  transactions : List (String × IndexedTables)

namespace Memory

def empty (supply : Supply) : Memory :=
  ⟨{}, none, supply, []⟩

def staged? (memory : Memory) (name : String) : Option IndexedTables :=
  memory.transactions.lookup name

def close (memory : Memory) (name : String) : Memory :=
  { memory with transactions := Entries.erase name memory.transactions }

def setStaged (memory : Memory) (name : String) (staged : IndexedTables) : Memory :=
  { memory with transactions := (name, staged) :: (memory.close name).transactions }

def transaction (memory : Memory) (staged : IndexedTables) : Transaction :=
  ⟨staged, memory.budget, memory.supply⟩

def afterWrites (memory : Memory) (name : String) (t : Transaction) : Memory :=
  { memory with budget := t.budget, supply := t.supply }.setStaged name t.staged

def write (memory : Memory) (name : String)
    (run : Transaction → Except StoreError Reply × Transaction) : Reply × Memory :=
  match memory.staged? name with
  | none => (.noTransaction, memory)
  | some staged =>
      let (result, t) := run (memory.transaction staged)
      let reply :=
        match result with
        | .ok reply => reply
        | .error error => .refused error
      (reply, memory.afterWrites name t)

def read (memory : Memory) (name : String) (view : Transaction → Reply) : Reply :=
  match memory.staged? name with
  | none => .noTransaction
  | some staged => view (memory.transaction staged)

def step (memory : Memory) (listing : Listing) : Command → Reply × Memory
  | .limitWrites budget => (.done, { memory with budget })
  | .begin name => (.done, memory.setStaged name {})
  | .commit name =>
      match memory.staged? name with
      | none => (.noTransaction, memory)
      | some staged =>
          -- The transaction is gone also when its commit is refused.
          match memory.committed.commit listing staged with
          | .error error => (.refused error, memory.close name)
          | .ok committed => (.done, { memory with committed }.close name)
  | .discard name =>
      match memory.staged? name with
      | none => (.noTransaction, memory)
      | some _ => (.done, memory.close name)
  | .createCategory name label icon parentId =>
      memory.write name fun t =>
        let (result, t) := t.createCategory label icon parentId
        (result.map fun c => .found .collectionCategory (some c), t)
  | .insert name e =>
      memory.write name fun t =>
        let (result, t) := t.insert memory.committed e
        (result.map fun _ => .done, t)
  | .get name kind id =>
      (memory.read name fun t => .found kind (t.get? memory.committed kind id), memory)
  | .list name kind =>
      (memory.read name fun t => .listed kind (t.rows memory.committed kind), memory)
  | .documentsOf name collection =>
      (memory.read name fun t => .listed .document (t.documentsOf memory.committed collection), memory)

/-- Carries out commands one after another, each with the order in which hash maps are listed then. -/
def run (memory : Memory) (steps : List (Listing × Command)) : Memory :=
  steps.foldl (fun memory (listing, command) => (memory.step listing command).2) memory

end Memory

end ContentStore

import ContentStore.Store.Supply
import ContentStore.Store.Tables

/-!
# Transactions

A transaction stages rows of its own and reads them together with the committed ones. A write first
spends from the budget of writes that the store still accepts, so that a write refused for its id has
spent too. A commit checks every staged id against the committed rows and then appends all staged rows.
-/

namespace ContentStore

inductive StoreError where
  | duplicateId (kind : Kind) (id : String)
  | unavailable (reason : String)
  deriving DecidableEq

namespace StoreError

def message : StoreError → String
  | .duplicateId kind id => kind.name ++ " " ++ id ++ " already exists"
  | .unavailable reason => "storage unavailable: " ++ reason

def overBudget : StoreError :=
  .unavailable "write rejected by memory backend"

end StoreError

/-- The number of writes that a store still accepts; none stands for no limit. -/
abbrev Budget := Option Nat

namespace Budget

/-- A budget of the given number of writes; the greatest number stands for no limit. -/
def ofNat (writes : Nat) : Budget :=
  if writes = 18446744073709551615 then none else some writes

def spend? : Budget → Option Budget
  | none => some none
  | some 0 => none
  | some (left + 1) => some (some left)

end Budget

/-- The committed rows and the budget for writes. -/
structure Store where
  committed : Tables := {}
  budget : Budget := none

/-- What a running transaction changes: its staged rows, and the budget and the supply of the store. -/
structure Work where
  staged : Tables
  budget : Budget
  supply : Supply

namespace Work

def start (budget : Budget) (supply : Supply) : Work :=
  ⟨{}, budget, supply⟩

def get? (work : Work) (committed : Tables) (kind : Kind) (id : RealId kind) : Option (Entity kind) :=
  (work.staged.get? kind id).or (committed.get? kind id)

def rows (work : Work) (committed : Tables) (kind : Kind) : List (Entity kind) :=
  committed.rows kind ++ work.staged.rows kind

def documentsOf (work : Work) (committed : Tables) (collection : CollectionId) : List Document :=
  (work.rows committed .document).filter fun (d : Document) => d.collectionId = collection

def fresh (work : Work) (kind : Kind) : RealId kind × Work :=
  let (id, supply) := work.supply.fresh kind
  (id, { work with supply })

def insert (work : Work) (committed : Tables) {kind : Kind} (e : Entity kind) :
    Except StoreError Unit × Work :=
  match work.budget.spend? with
  | none => (.error .overBudget, work)
  | some budget =>
      let work := { work with budget }
      if committed.contains kind e.id || work.staged.contains kind e.id then
        (.error (.duplicateId kind e.id.text), work)
      else (.ok (), { work with staged := work.staged.push e })

def createCategory (work : Work) (name icon : String) (parentId : Option CollectionCategoryId) :
    Except StoreError CollectionCategory × Work :=
  match work.budget.spend? with
  | none => (.error .overBudget, work)
  | some budget =>
      let (id, work) := { work with budget }.fresh .collectionCategory
      let category : CollectionCategory :=
        { id, name, icon, parentId, createdAt := work.supply.now }
      (.ok category, { work with staged := @Tables.push work.staged .collectionCategory category })

end Work

namespace Tables

def clash? (committed staged : Tables) (kind : Kind) : Option StoreError :=
  ((staged.rows kind).find? fun e => committed.contains kind e.id).map fun e =>
    .duplicateId kind e.id.text

def commit (committed staged : Tables) : Except StoreError Tables :=
  match Kind.all.findSome? (clash? committed staged) with
  | some error => .error error
  | none => .ok (committed ++ staged)

end Tables

end ContentStore

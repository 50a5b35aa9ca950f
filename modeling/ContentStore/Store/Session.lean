import ContentStore.Store.Transaction

/-!
# Sessions of several transactions

A session is a store with any number of open transactions, each under a name. All of them read what is
committed at the moment of reading. A transaction ends with its commit, also with a refused one.
-/

namespace ContentStore

/-- A store with its supply and the staged rows of each open transaction. -/
structure Session where
  store : Store
  supply : Supply
  transactions : List (String × Tables)

inductive Command where
  | limitWrites (budget : Budget)
  | begin (name : String)
  | commit (name : String)
  | discard (name : String)
  | createCategory (name : String) (label icon : String) (parentId : Option CollectionCategoryId)
  | insert (name : String) {kind : Kind} (e : Entity kind)
  | get (name : String) (kind : Kind) (id : RealId kind)
  | list (name : String) (kind : Kind)
  | documentsOf (name : String) (collection : CollectionId)

inductive Reply where
  | done
  | noTransaction
  | refused (error : StoreError)
  | found (kind : Kind) (e : Option (Entity kind))
  | listed (kind : Kind) (rows : List (Entity kind))

namespace Session

def empty (supply : Supply) : Session :=
  ⟨{}, supply, []⟩

def staged? (session : Session) (name : String) : Option Tables :=
  session.transactions.lookup name

def close (session : Session) (name : String) : Session :=
  { session with transactions := Entries.erase name session.transactions }

def setStaged (session : Session) (name : String) (staged : Tables) : Session :=
  { session with transactions := (name, staged) :: (session.close name).transactions }

@[simp] theorem staged?_close_self (session : Session) (name : String) :
    (session.close name).staged? name = none :=
  Entries.lookup_erase_self name session.transactions

theorem staged?_close_of_ne (session : Session) {name other : String} (h : other ≠ name) :
    (session.close name).staged? other = session.staged? other :=
  Entries.lookup_erase_of_ne h session.transactions

@[simp] theorem staged?_setStaged_self (session : Session) (name : String) (staged : Tables) :
    (session.setStaged name staged).staged? name = some staged := by
  simp [staged?, setStaged]

theorem staged?_setStaged_of_ne (session : Session) {name other : String} (h : other ≠ name)
    (staged : Tables) :
    (session.setStaged name staged).staged? other = session.staged? other := by
  have ho : (other == name) = false := by simpa using h
  simp only [staged?, setStaged, List.lookup_cons, ho]
  exact staged?_close_of_ne session h

def work (session : Session) (staged : Tables) : Work :=
  ⟨staged, session.store.budget, session.supply⟩

def afterWork (session : Session) (name : String) (work : Work) : Session :=
  { session with
    store := { session.store with budget := work.budget }, supply := work.supply }.setStaged name
    work.staged

def write (session : Session) (name : String) (run : Work → Except StoreError Reply × Work) :
    Reply × Session :=
  match session.staged? name with
  | none => (.noTransaction, session)
  | some staged =>
      let (result, work) := run (session.work staged)
      let reply :=
        match result with
        | .ok reply => reply
        | .error error => .refused error
      (reply, session.afterWork name work)

def read (session : Session) (name : String) (view : Work → Reply) : Reply :=
  match session.staged? name with
  | none => .noTransaction
  | some staged => view (session.work staged)

def step (session : Session) : Command → Reply × Session
  | .limitWrites budget => (.done, { session with store := { session.store with budget } })
  | .begin name => (.done, session.setStaged name {})
  | .commit name =>
      match session.staged? name with
      | none => (.noTransaction, session)
      | some staged =>
          match session.store.committed.commit staged with
          | .error error => (.refused error, session.close name)
          | .ok committed =>
              (.done, { session with store := { session.store with committed } }.close name)
  | .discard name =>
      match session.staged? name with
      | none => (.noTransaction, session)
      | some _ => (.done, session.close name)
  | .createCategory name label icon parentId =>
      session.write name fun work =>
        let (result, work) := work.createCategory label icon parentId
        (result.map fun c => .found .collectionCategory (some c), work)
  | .insert name e =>
      session.write name fun work =>
        let (result, work) := work.insert session.store.committed e
        (result.map fun _ => .done, work)
  | .get name kind id =>
      (session.read name fun work => .found kind (work.get? session.store.committed kind id), session)
  | .list name kind =>
      (session.read name fun work => .listed kind (work.rows session.store.committed kind), session)
  | .documentsOf name collection =>
      (session.read name fun work =>
        .listed .document (work.documentsOf session.store.committed collection), session)

def run (session : Session) (commands : List Command) : Session :=
  commands.foldl (fun session command => (session.step command).2) session

end Session

end ContentStore

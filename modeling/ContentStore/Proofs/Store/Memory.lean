import ContentStore.Proofs.Store.History
import ContentStore.Proofs.Store.Indexed
import ContentStore.Store.Memory

/-!
# The memory backend is serial

The backend, with its indexed tables, does at every command what a session does with the rows alone, in
whatever order its indexes are listed. So the committed rows are those of the transactions that committed,
one transaction after another, and every one of them is found under its id.
-/

namespace ContentStore

/-! ## Replies that are alike -/

/-- The same reply, or a refused commit that names another id of the same kind. -/
def Reply.Alike (reply other : Reply) : Prop :=
  reply = other ∨
    ∃ listed found, reply = .refused listed ∧ other = .refused found ∧
      IndexedTables.RefusedAlike listed found

theorem Reply.Alike.refl (reply : Reply) : reply.Alike reply := .inl rfl

namespace Event

/-- The same command with alike replies. -/
structure Alike (event other : Event) : Prop where
  command_eq : event.command = other.command
  reply : event.reply.Alike other.reply

variable {event other : Event} {history history' : List Event}

theorem Alike.written_eq (h : event.Alike other) (name : String) :
    event.written name = other.written name := by
  obtain ⟨command, reply⟩ := event
  obtain ⟨command', reply'⟩ := other
  obtain ⟨rfl, rfl | ⟨listed, found, rfl, rfl, -⟩⟩ := h
  · rfl
  · cases command <;> rfl

theorem Alike.committed?_eq (h : event.Alike other) : event.committed? = other.committed? := by
  obtain ⟨command, reply⟩ := event
  obtain ⟨command', reply'⟩ := other
  obtain ⟨rfl, rfl | ⟨listed, found, rfl, rfl, -⟩⟩ := h
  · rfl
  · cases command <;> rfl

theorem Alike.begins_eq (h : event.Alike other) (name : String) :
    event.begins name = other.begins name := by
  rw [begins, h.command_eq]
  rfl

theorem writtenBy_eq_of_alike (h : List.Forall₂ Alike history history') (name : String) :
    writtenBy name history = writtenBy name history' := by
  induction h with
  | nil => rfl
  | cons hfirst _ ih => simp only [writtenBy, hfirst.begins_eq, hfirst.written_eq, ih]

/-- The committed rows of a history do not depend on the ids that refusals name. -/
theorem committedRows_eq_of_alike (h : List.Forall₂ Alike history history') :
    committedRows history = committedRows history' := by
  induction h with
  | nil => rfl
  | cons hfirst hrest ih =>
      simp only [committedRows, hfirst.committed?_eq, ih, writtenBy_eq_of_alike hrest]

end Event

namespace Memory

/-! ## Writes of one transaction -/

def Transaction.toWork (t : Transaction) : Work :=
  ⟨t.staged.toTables, t.budget, t.supply⟩

@[simp] theorem Transaction.budget_toWork (t : Transaction) : t.toWork.budget = t.budget := rfl

/-- A write of a transaction comes to the same as a write of its rows, and keeps its tables aligned. -/
structure Writes {α : Type} (done : Except StoreError α × Transaction) (meant : Except StoreError α × Work) :
    Prop where
  result_eq : done.1 = meant.1
  work_eq : done.2.toWork = meant.2
  aligned : done.2.staged.Aligned

variable {t : Transaction} {committed : IndexedTables} {kind : Kind}

theorem Writes.map {α β : Type} {done : Except StoreError α × Transaction}
    {meant : Except StoreError α × Work} (h : Writes done meant) (f : α → β) :
    Writes (done.1.map f, done.2) (meant.1.map f, meant.2) where
  result_eq := congrArg (Except.map f) h.result_eq
  work_eq := h.work_eq
  aligned := h.aligned

theorem ensureAbsent_eq {tables : IndexedTables} (h : tables.Aligned) (id : RealId kind) :
    (tables.table kind).ensureAbsent id =
      if tables.toTables.contains kind id then .error (.duplicateId kind id.text) else .ok () := by
  rw [Table.ensureAbsent, h.contains_eq]

theorem writes_insert (hc : committed.Aligned) (ht : t.staged.Aligned) (e : Entity kind) :
    Writes (t.insert committed e) (t.toWork.insert committed.toTables e) := by
  unfold Transaction.insert Work.insert
  simp only [Transaction.budget_toWork]
  cases t.budget.spend? with
  | none => exact ⟨rfl, rfl, ht⟩
  | some budget =>
      have hfirst := ensureAbsent_eq hc e.id
      have hsecond := ensureAbsent_eq ht e.id
      by_cases hcommitted : committed.toTables.contains kind e.id = true
      · rw [if_pos hcommitted] at hfirst
        simp only [hfirst, Transaction.toWork, hcommitted, Bool.true_or, if_true]
        exact ⟨rfl, rfl, ht⟩
      · rw [if_neg hcommitted] at hfirst
        by_cases hstaged : t.staged.toTables.contains kind e.id = true
        · rw [if_pos hstaged] at hsecond
          simp only [hfirst, hsecond, Transaction.toWork, hstaged, Bool.or_true, if_true]
          exact ⟨rfl, rfl, ht⟩
        · rw [if_neg hstaged] at hsecond
          rw [Bool.not_eq_true] at hcommitted hstaged
          simp only [hfirst, hsecond, Transaction.toWork, hcommitted, hstaged, Bool.or_self,
            Bool.false_eq_true, if_false]
          exact ⟨rfl, by simp only [Transaction.toWork, IndexedTables.toTables_push], ht.push hstaged⟩

/-- A category is staged without a check of its id, which therefore has to be new. -/
theorem writes_createCategory (ht : t.staged.Aligned)
    (hnew : t.staged.toTables.contains .collectionCategory
      ((t.supply.suffix t.supply.used).toId .collectionCategory) = false)
    (name icon : String) (parentId : Option CollectionCategoryId) :
    Writes (t.createCategory name icon parentId) (t.toWork.createCategory name icon parentId) := by
  unfold Transaction.createCategory Work.createCategory
  simp only [Transaction.budget_toWork]
  cases t.budget.spend? with
  | none => exact ⟨rfl, rfl, ht⟩
  | some budget => exact ⟨rfl, rfl, @IndexedTables.Aligned.push _ .collectionCategory ht _ hnew⟩

/-! ## The rows of a backend -/

variable {memory : Memory} {suffix : Nat → IdSuffix}

/-- The backend without its indexes: a session. -/
def toSession (memory : Memory) : Session where
  store := ⟨memory.committed.toTables, memory.budget⟩
  supply := memory.supply
  transactions := memory.transactions.map fun t => (t.1, t.2.toTables)

theorem staged?_toSession (memory : Memory) (name : String) :
    memory.toSession.staged? name = (memory.staged? name).map IndexedTables.toTables :=
  Entries.lookup_map (fun _ => IndexedTables.toTables) name memory.transactions

theorem toSession_close (memory : Memory) (name : String) :
    (memory.close name).toSession = memory.toSession.close name := by
  simp [toSession, close, Session.close, Entries.erase, List.filter_map, Function.comp_def]

theorem toSession_setStaged (memory : Memory) (name : String) (staged : IndexedTables) :
    (memory.setStaged name staged).toSession = memory.toSession.setStaged name staged.toTables := by
  have hclose := congrArg Session.transactions (memory.toSession_close name)
  unfold Session.setStaged
  rw [← hclose]
  rfl

/-- All tables of the backend are aligned. -/
structure Aligned (memory : Memory) : Prop where
  committed : memory.committed.Aligned
  staged : ∀ name staged, memory.staged? name = some staged → staged.Aligned

theorem Aligned.close (h : memory.Aligned) (name : String) : (memory.close name).Aligned where
  committed := h.committed
  staged other staged hs := by
    by_cases ho : other = name
    · subst ho
      have hnone : (memory.close other).staged? other = none :=
        Entries.lookup_erase_self other memory.transactions
      rw [hnone] at hs
      cases hs
    · have hkept : (memory.close name).staged? other = memory.staged? other :=
        Entries.lookup_erase_of_ne ho memory.transactions
      rw [hkept] at hs
      exact h.staged other staged hs

theorem Aligned.setStaged (h : memory.Aligned) (name : String) {staged : IndexedTables}
    (hstaged : staged.Aligned) : (memory.setStaged name staged).Aligned where
  committed := h.committed
  staged other found hs := by
    have hlookup : (memory.setStaged name staged).staged? other =
        if other = name then some staged else (memory.close name).staged? other := by
      simp only [staged?, Memory.setStaged, List.lookup_cons]
      by_cases ho : other = name
      · simp [ho]
      · have hbeq : (other == name) = false := by simpa using ho
        simp only [hbeq, ho, if_false]
    rw [hlookup] at hs
    split at hs
    · cases hs
      exact hstaged
    · exact (h.close name).staged other found hs

/-! ## One command -/

/-- A backend does what a session without indexes does: alike replies, the same rows, and all tables stay
aligned. -/
structure Simulates (done : Reply × Memory) (meant : Reply × Session) : Prop where
  reply : done.1.Alike meant.1
  session_eq : done.2.toSession = meant.2
  aligned : done.2.Aligned

theorem simulates_write (h : memory.Aligned) {name : String}
    {run : Transaction → Except StoreError Reply × Transaction}
    {run' : Work → Except StoreError Reply × Work}
    (hrun : ∀ staged, memory.staged? name = some staged →
      Writes (run (memory.transaction staged)) (run' (memory.toSession.work staged.toTables))) :
    Simulates (memory.write name run) (memory.toSession.write name run') := by
  unfold write Session.write
  rw [staged?_toSession]
  cases hs : memory.staged? name with
  | none => exact ⟨.refl _, rfl, h⟩
  | some staged =>
      obtain ⟨hresult, hwork, haligned⟩ := hrun staged hs
      simp only [Option.map_some]
      refine ⟨?_, ?_, ?_⟩
      · rw [hresult]
        exact .refl _
      · rw [← hwork]
        exact toSession_setStaged _ name _
      · have hspent : ({ memory with
            budget := (run (memory.transaction staged)).2.budget
            supply := (run (memory.transaction staged)).2.supply } : Memory).Aligned :=
          ⟨h.committed, h.staged⟩
        exact hspent.setStaged name haligned

theorem simulates_read (h : memory.Aligned) {name : String} {view : Transaction → Reply}
    {view' : Work → Reply}
    (hview : ∀ staged, memory.staged? name = some staged →
      view (memory.transaction staged) = view' (memory.toSession.work staged.toTables)) :
    Simulates (memory.read name view, memory) (memory.toSession.read name view', memory.toSession) := by
  refine ⟨.inl ?_, rfl, h⟩
  unfold read Session.read
  rw [staged?_toSession]
  cases hs : memory.staged? name with
  | none => rfl
  | some staged => exact hview staged hs

theorem get?_transaction (h : memory.Aligned) {name : String} {staged : IndexedTables}
    (hs : memory.staged? name = some staged) (kind : Kind) (id : RealId kind) :
    (memory.transaction staged).get? memory.committed kind id =
      (memory.toSession.work staged.toTables).get? memory.toSession.store.committed kind id := by
  have hstaged : ((memory.transaction staged).staged.table kind).get? id = staged.toTables.get? kind id :=
    (h.staged name staged hs).get?_eq kind id
  unfold Transaction.get?
  rw [hstaged, h.committed.get?_eq]
  cases hfound : staged.toTables.get? kind id <;> simp [Work.get?, Session.work, toSession, hfound]

theorem rows_transaction (memory : Memory) (staged : IndexedTables) (kind : Kind) :
    (memory.transaction staged).rows memory.committed kind =
      (memory.toSession.work staged.toTables).rows memory.toSession.store.committed kind := by
  simp [Transaction.rows, transaction, Work.rows, Session.work, toSession]

theorem simulates_commit (h : memory.Aligned) (listing : Listing) (name : String) :
    Simulates (memory.step listing (.commit name)) (memory.toSession.step (.commit name)) := by
  unfold step Session.step
  simp only [staged?_toSession]
  cases hs : memory.staged? name with
  | none => exact ⟨.refl _, rfl, h⟩
  | some staged =>
      simp only [Option.map_some]
      rcases h.committed.commit_alike (h.staged name staged hs) listing with
        ⟨after, hok, haligned, hmeant⟩ | ⟨listed, found, herror, hmeant, halike⟩
      · have hmeant' : memory.toSession.store.committed.commit staged.toTables = .ok after.toTables := hmeant
        rw [hok, hmeant']
        have hafter : ({ memory with committed := after } : Memory).Aligned := ⟨haligned, h.staged⟩
        exact ⟨.refl _, toSession_close _ name, hafter.close name⟩
      · have hmeant' : memory.toSession.store.committed.commit staged.toTables = .error found := hmeant
        rw [herror, hmeant']
        exact ⟨.inr ⟨listed, found, rfl, rfl, halike⟩, toSession_close memory name, h.close name⟩

/-- Every command does what it does to a session, as long as new category ids are new. -/
theorem simulates_step (h : memory.Aligned) (hd : memory.toSession.Distinct suffix)
    (hs : Function.Injective suffix) (listing : Listing) (command : Command) :
    Simulates (memory.step listing command) (memory.toSession.step command) := by
  cases command with
  | limitWrites budget => exact ⟨.refl _, rfl, h.committed, h.staged⟩
  | begin name =>
      exact ⟨.refl _, toSession_setStaged memory name {}, h.setStaged name IndexedTables.aligned_empty⟩
  | commit name => exact simulates_commit h listing name
  | discard name =>
      unfold step Session.step
      simp only [staged?_toSession]
      cases memory.staged? name with
      | none => exact ⟨.refl _, rfl, h⟩
      | some staged => exact ⟨.refl _, toSession_close memory name, h.close name⟩
  | createCategory name label icon parentId =>
      rw [step, Session.step]
      apply simulates_write h
      intro staged hstaged
      have hrows : memory.toSession.staged? name = some staged.toTables := by
        rw [staged?_toSession, hstaged, Option.map_some]
      have hsuffix : memory.supply.suffix = suffix := hd.suffix_eq
      have hnew := (hd.staged name staged.toTables hrows).contains_new (hsuffix ▸ hs)
      exact (writes_createCategory (t := memory.transaction staged) (h.staged name staged hstaged) hnew
        label icon parentId).map _
  | insert name e =>
      rw [step, Session.step]
      apply simulates_write h
      intro staged hstaged
      exact (writes_insert (t := memory.transaction staged) h.committed (h.staged name staged hstaged)
        e).map _
  | get name kind id =>
      exact simulates_read h fun staged hstaged => congrArg _ (get?_transaction h hstaged kind id)
  | list name kind =>
      exact simulates_read h fun staged _ => congrArg _ (rows_transaction memory staged kind)
  | documentsOf name collection =>
      refine simulates_read h fun staged _ => ?_
      unfold Transaction.documentsOf Work.documentsOf
      rw [rows_transaction]

/-! ## Runs -/

def events (memory : Memory) : List (Listing × Command) → List Event
  | [] => []
  | (listing, command) :: rest =>
      ⟨command, (memory.step listing command).1⟩ :: (memory.step listing command).2.events rest

def history (memory : Memory) (steps : List (Listing × Command)) : List Event :=
  (memory.events steps).reverse

theorem events_append (memory : Memory) (steps more : List (Listing × Command)) :
    memory.events (steps ++ more) = memory.events steps ++ (memory.run steps).events more := by
  induction steps generalizing memory with
  | nil => rfl
  | cons step rest ih => exact congrArg _ (ih (memory.step step.1 step.2).2)

theorem history_append_singleton (memory : Memory) (steps : List (Listing × Command))
    (step : Listing × Command) : memory.history (steps ++ [step]) =
      ⟨step.2, ((memory.run steps).step step.1 step.2).1⟩ :: memory.history steps := by
  simp [history, events_append, events]

theorem run_append_singleton (memory : Memory) (steps : List (Listing × Command))
    (step : Listing × Command) :
    memory.run (steps ++ [step]) = ((memory.run steps).step step.1 step.2).2 := by
  simp [run]

/-- What a session without indexes does at the same commands. -/
structure Follows (supply : Supply) (steps : List (Listing × Command)) : Prop where
  session_eq : ((empty supply).run steps).toSession = (Session.empty supply).run (steps.map Prod.snd)
  aligned : ((empty supply).run steps).Aligned
  alike : List.Forall₂ Event.Alike ((empty supply).history steps)
    ((Session.empty supply).history (steps.map Prod.snd))

/-- In every run the backend does what a session without indexes does. -/
theorem follows_run {supply : Supply} (hs : Function.Injective supply.suffix)
    {steps : List (Listing × Command)} (ho : ∀ step ∈ steps, step.2.Offered) : Follows supply steps := by
  induction steps using List.reverseRecOn with
  | nil => exact ⟨rfl, ⟨IndexedTables.aligned_empty, fun _ _ h => nomatch h⟩, .nil⟩
  | append_singleton steps step ih =>
      obtain ⟨hsession, haligned, halike⟩ := ih fun other hother => ho other (by simp [hother])
      have hoffered : ∀ command ∈ steps.map Prod.snd, command.Offered :=
        List.forall_mem_map.2 fun other hother => ho other (by simp [hother])
      have hdistinct := Session.distinct_run hs hoffered
      rw [← hsession] at hdistinct
      obtain ⟨hreply, hafter, hkept⟩ := simulates_step haligned hdistinct hs step.1 step.2
      rw [hsession] at hreply hafter
      constructor
      · rw [run_append_singleton, List.map_append, List.map_singleton, Session.run_append_singleton]
        exact hafter
      · rw [run_append_singleton]
        exact hkept
      · rw [history_append_singleton, List.map_append, List.map_singleton,
          Session.history_append_singleton]
        exact .cons ⟨rfl, hreply⟩ halike

/-- A command that commits nothing leaves the committed tables as they are, with their indexes. -/
theorem committed_step_eq (memory : Memory) (listing : Listing) {command : Command}
    (h : ∀ name, command = .commit name → (memory.step listing command).1 ≠ .done) :
    (memory.step listing command).2.committed = memory.committed := by
  have hwrite : ∀ name (run : Transaction → Except StoreError Reply × Transaction),
      (memory.write name run).2.committed = memory.committed := by
    intro name run
    unfold write
    cases memory.staged? name <;> rfl
  cases command with
  | commit name =>
      have hfails := h name rfl
      simp only [step] at hfails ⊢
      cases hs : memory.staged? name with
      | none => rfl
      | some staged =>
          cases hc : memory.committed.commit listing staged with
          | error error =>
              simp only [hc]
              rfl
          | ok committed => exact absurd (by simp [hs, hc]) hfails
  | discard name =>
      simp only [step]
      cases memory.staged? name <;> rfl
  | createCategory name label icon parentId => exact hwrite name _
  | insert name e => exact hwrite name _
  | _ => rfl

theorem step_get_begun (memory : Memory) (listing other : Listing) (name : String) (kind : Kind)
    (id : RealId kind) :
    ((memory.step listing (.begin name)).2.step other (.get name kind id)).1 =
      .found kind ((memory.committed.table kind).get? id) := by
  have hstaged : (memory.setStaged name {}).staged? name = some {} := by
    simp [staged?, setStaged]
  have hempty : (({} : IndexedTables).table kind).get? id = none := by
    cases kind <;> rfl
  simp only [step, read, hstaged, Transaction.get?, transaction, hempty]
  rfl

/-- In every run of mixed transactions the committed rows are those that the committed transactions wrote,
in the order of the commits, in whatever orders indexes are listed. No id of a kind is committed twice, a
new transaction finds under an id the committed row that has it and nothing else, and only a commit that
succeeds changes committed tables. -/
theorem run_serial {supply : Supply} (hs : Function.Injective supply.suffix)
    {steps : List (Listing × Command)} (ho : ∀ step ∈ steps, step.2.Offered) :
    let memory := (empty supply).run steps
    (∀ kind, (memory.committed.table kind).rows =
        (Event.committedRows ((empty supply).history steps)).rows kind) ∧
      (∀ kind, ((memory.committed.table kind).rows.map Entity.id).Nodup) ∧
      (∀ listing other name kind (id : RealId kind), ∃ found,
        ((memory.step listing (.begin name)).2.step other (.get name kind id)).1 = .found kind found ∧
        ∀ e, found = some e ↔ e ∈ (memory.committed.table kind).rows ∧ e.id = id) ∧
      ∀ listing command, (∀ name, command = .commit name → (memory.step listing command).1 ≠ .done) →
        (memory.step listing command).2.committed = memory.committed := by
  intro memory
  obtain ⟨hsession, haligned, halike⟩ := follows_run hs ho
  refine ⟨fun kind => ?_, fun kind => (haligned.committed kind).distinct, ?_, ?_⟩
  · rw [Event.committedRows_eq_of_alike halike, ← (Session.follows_run supply _).committed_eq, ← hsession]
    exact (IndexedTables.rows_toTables memory.committed kind).symm
  · intro listing other name kind id
    exact ⟨_, step_get_begun memory listing other name kind id, fun e =>
      (haligned.committed kind).get?_eq_some_iff⟩
  · intro listing command hfails
    exact committed_step_eq memory listing hfails

/-- Two transactions that insert an app under one id, among writes of their own; the indexes are listed
forwards while the rows are written and backwards at the commits. -/
def race : List (Listing × Command) :=
  let app : App := {
    id := (Supply.growing.suffix 7).toId .app, appType := "", name := "", targets := []
    files := SortedMap.empty, createdAt := 0 }
  let writes : List Command := [.begin "first", .begin "second", .createCategory "first" "People" "" none,
    @Command.insert "first" .app app, @Command.insert "second" .app app,
    .createCategory "second" "Places" "" none, .createCategory "second" "Parks" "" none,
    .limitWrites (some 0), .createCategory "first" "Things" "" none, .limitWrites none]
  let commits : List Command := [.commit "second", .commit "first"]
  writes.map (Listing.forwards, ·) ++ commits.map (Listing.backwards, ·)

theorem run_serial_race :
    let memory := (empty .growing).run race
    (Function.Injective Supply.growing.suffix ∧ ∀ step ∈ race, step.2.Offered) ∧
      (∀ kind, (memory.committed.table kind).rows =
        (Event.committedRows ((empty .growing).history race)).rows kind) ∧
      memory.committed.apps.rows.length = 1 ∧
      memory.committed.categories.rows.map CollectionCategory.name = ["Places", "Parks"] ∧
      ∀ kind, ((memory.committed.table kind).rows.map Entity.id).Nodup := by
  have hoffered : ∀ step ∈ race, step.2.Offered := by
    simp [race, Command.Offered]
  obtain ⟨hrows, hids, -, -⟩ := run_serial Supply.growing_injective hoffered
  -- The sorting does not evaluate, but the session without indexes does.
  have hsession : ((empty .growing).run race).committed.toTables =
      ((Session.empty .growing).run (race.map Prod.snd)).store.committed :=
    congrArg (fun session => session.store.committed)
      (follows_run Supply.growing_injective hoffered).session_eq
  refine ⟨⟨Supply.growing_injective, hoffered⟩, hrows, ?_, ?_, hids⟩
  · have happs := congrArg (fun t => (t.rows .app).length) hsession
    simp only [IndexedTables.rows_toTables] at happs
    exact happs.trans (by decide : _ = 1)
  · have hcategories := congrArg
      (fun t => (t.rows .collectionCategory).map CollectionCategory.name) hsession
    simp only [IndexedTables.rows_toTables] at hcategories
    exact hcategories.trans (by decide : _ = ["Places", "Parks"])

end Memory

end ContentStore

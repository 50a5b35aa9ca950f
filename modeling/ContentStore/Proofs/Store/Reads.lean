import ContentStore.Proofs.Store.History

/-!
# What a transaction reads

A get looks at the rows that the transaction has staged before it looks at the committed ones, while a
list holds both. Under most ids they show the same. Only where two transactions have staged one id and one
of them has committed, the other lists two rows under it until its own commit is refused.
-/

namespace ContentStore

namespace Tables

variable {t : Tables} {kind : Kind}

/-- Where no id stands twice, the rows with an id are the one that is found. -/
theorem DistinctIds.filter_id (h : t.DistinctIds) (id : RealId kind) :
    (t.rows kind).filter (fun e => e.id = id) = (t.get? kind id).toList := by
  have hnodup := h kind
  unfold get?
  generalize t.rows kind = rows at hnodup ⊢
  induction rows with
  | nil => rfl
  | cons row rest ih =>
      obtain ⟨hrow, hrest⟩ := List.nodup_cons.1 hnodup
      by_cases hid : row.id = id
      · have hnone : rest.filter (fun e => e.id = id) = [] := by
          refine List.filter_eq_nil_iff.2 fun e he heq => hrow ?_
          rw [hid, ← of_decide_eq_true heq]
          exact List.mem_map_of_mem he
        simp [hid, hnone]
      · simpa [hid] using ih hrest

end Tables

namespace Event

/-- The transaction of a name has written a row under an id that another one has committed. -/
def Conflicting (name : String) (history : List Event) (kind : Kind) (id : RealId kind) : Prop :=
  (writtenBy name history).contains kind id = true ∧ (committedRows history).contains kind id = true

instance (name : String) (history : List Event) (kind : Kind) (id : RealId kind) :
    Decidable (Conflicting name history kind id) :=
  inferInstanceAs (Decidable (_ ∧ _))

end Event

namespace Session

variable {session : Session} {name : String} {staged : Tables}

/-! ### Reading in an open transaction -/

theorem step_get (h : session.staged? name = some staged) (kind : Kind) (id : RealId kind) :
    (session.step (.get name kind id)).1 =
      .found kind ((staged.get? kind id).or (session.store.committed.get? kind id)) := by
  simp only [step, read, h]
  rfl

theorem step_list (h : session.staged? name = some staged) (kind : Kind) :
    (session.step (.list name kind)).1 =
      .listed kind (session.store.committed.rows kind ++ staged.rows kind) := by
  simp only [step, read, h]
  rfl

theorem step_documentsOf (h : session.staged? name = some staged) (collection : CollectionId) :
    (session.step (.documentsOf name collection)).1 = .listed .document
      ((session.store.committed.rows .document ++ staged.rows .document).filter
        fun (d : Document) => d.collectionId = collection) := by
  simp only [step, read, h]
  rfl

/-- Some rows are all that a transaction lists under an id. Documents are listed collection by collection,
each where it belongs. -/
def Lists (session : Session) (name : String) :
    (kind : Kind) → RealId kind → List (Entity kind) → Prop
  | .document, id, rows => ∀ collection, ∃ listed : List Document,
      (session.step (.documentsOf name collection)).1 = .listed .document listed ∧
      listed.filter (fun d => d.id = id) = rows.filter fun d => d.collectionId = collection
  | kind, id, rows => ∃ listed, (session.step (.list name kind)).1 = .listed kind listed ∧
      listed.filter (fun e => e.id = id) = rows

/-- What a transaction lists under an id is the row that it gets under it, if there is one. -/
def ReadsAlike (session : Session) (name : String) (kind : Kind) (id : RealId kind) : Prop :=
  ∃ found, (session.step (.get name kind id)).1 = .found kind found ∧
    session.Lists name kind id found.toList

theorem lists_of_open (h : session.staged? name = some staged) (kind : Kind) (id : RealId kind) :
    session.Lists name kind id
      ((session.store.committed.rows kind ++ staged.rows kind).filter fun e => e.id = id) := by
  cases kind with
  | document =>
      intro collection
      refine ⟨_, step_documentsOf h collection, ?_⟩
      rw [List.filter_filter, List.filter_filter]
      exact List.filter_congr fun d _ => Bool.and_comm _ _
  | _ => exact ⟨_, step_list h _, rfl⟩

/-- A transaction lists the committed row with an id and its own one. -/
theorem Distinct.lists {suffix : Nat → IdSuffix} (hd : session.Distinct suffix)
    (h : session.staged? name = some staged) (kind : Kind) (id : RealId kind) :
    session.Lists name kind id
      ((session.store.committed.get? kind id).toList ++ (staged.get? kind id).toList) := by
  have hlists := lists_of_open h kind id
  rwa [List.filter_append, hd.committed.filter_id, (hd.staged name staged h).distinct.filter_id]
    at hlists

/-- A commit is refused while a staged id is committed already. -/
theorem commit_refused (h : session.staged? name = some staged) {kind : Kind} {id : RealId kind}
    (hs : staged.contains kind id = true) (hc : session.store.committed.contains kind id = true) :
    ∃ error, (session.step (.commit name)).1 = .refused error := by
  cases hcommit : session.store.committed.commit staged with
  | error error =>
      refine ⟨error, ?_⟩
      simp only [step, h, hcommit]
  | ok committed =>
      obtain ⟨hclear, -⟩ := Tables.commit_eq_ok_iff.1 hcommit
      obtain ⟨e, he, rfl⟩ := Tables.contains_iff.1 hs
      rw [hclear kind e he] at hc
      cases hc

theorem Distinct.readsAlike {suffix : Nat → IdSuffix} (hd : session.Distinct suffix)
    (h : session.staged? name = some staged) {kind : Kind} {id : RealId kind}
    (hclear : ¬ (staged.contains kind id = true ∧ session.store.committed.contains kind id = true)) :
    session.ReadsAlike name kind id := by
  refine ⟨_, step_get h kind id, ?_⟩
  have hlists := hd.lists h kind id
  cases hown : staged.get? kind id with
  | none =>
      rw [hown, Option.toList_none, List.append_nil] at hlists
      exact hlists
  | some own =>
      have hfree : session.store.committed.get? kind id = none := by
        rw [← Option.not_isSome_iff_eq_none]
        exact fun hc => hclear ⟨Tables.contains_of_get? hown, hc⟩
      rw [hown, hfree, Option.toList_none, List.nil_append] at hlists
      exact hlists

/-- In every run, an open transaction lists under each id exactly the row that it gets under it, if there
is one, unless it has written a row under an id that another transaction has committed. Then it gets its own
row, lists the committed one as well, and will be refused its commit. -/
theorem run_reads {supply : Supply} (hs : Function.Injective supply.suffix) {commands : List Command}
    (ho : ∀ command ∈ commands, command.Offered) {name : String}
    (hopen : ((empty supply).run commands).staged? name ≠ none) (kind : Kind) (id : RealId kind) :
    let session := (empty supply).run commands
    let history := (empty supply).history commands
    (¬ Event.Conflicting name history kind id → session.ReadsAlike name kind id) ∧
      (Event.Conflicting name history kind id → ∃ theirs own,
        theirs ∈ (Event.committedRows history).rows kind ∧ own ∈ (Event.writtenBy name history).rows kind ∧
        (session.step (.get name kind id)).1 = .found kind (some own) ∧
        session.Lists name kind id [theirs, own] ∧
        ∃ error, (session.step (.commit name)).1 = .refused error) := by
  intro session history
  obtain ⟨staged, hstaged⟩ := Option.ne_none_iff_exists'.1 hopen
  have hdistinct := distinct_run hs ho
  have hfollows := follows_run supply commands
  unfold Event.Conflicting
  rw [← hfollows.committed_eq, ← hfollows.staged_eq name staged hstaged]
  refine ⟨hdistinct.readsAlike hstaged, ?_⟩
  rintro ⟨hown, htheirs⟩
  have hrefused := commit_refused hstaged hown htheirs
  have hlists := hdistinct.lists hstaged kind id
  have hget := step_get hstaged kind id
  obtain ⟨own, hown⟩ := Option.isSome_iff_exists.1 hown
  obtain ⟨theirs, htheirs⟩ := Option.isSome_iff_exists.1 htheirs
  rw [hown, htheirs] at hlists
  rw [hown, Option.some_or] at hget
  exact ⟨theirs, own, Tables.mem_rows_of_get? htheirs, Tables.mem_rows_of_get? hown, hget, hlists, hrefused⟩

/-- Two transactions that insert an app of their own under one id, and the commit of the second. -/
def conflict : List Command :=
  let app (name : String) : App := {
    id := (Supply.growing.suffix 7).toId .app, appType := "", name, targets := []
    files := SortedMap.empty, createdAt := 0 }
  [.begin "first", .begin "second", @Command.insert "first" .app (app "Mine"),
    @Command.insert "second" .app (app "Theirs"), .commit "second"]

theorem conflict_offered : ∀ command ∈ conflict, command.Offered := by
  simp [conflict, Command.Offered]

/-- Reads do not always agree: after the conflict the first transaction lists two apps under the id. -/
theorem not_readsAlike_conflict :
    let session := (empty .growing).run conflict
    (Function.Injective Supply.growing.suffix ∧ ∀ command ∈ conflict, command.Offered) ∧
      session.staged? "first" ≠ none ∧
      ¬ session.ReadsAlike "first" .app ((Supply.growing.suffix 7).toId .app) := by
  intro session
  refine ⟨⟨Supply.growing_injective, conflict_offered⟩, nofun, ?_⟩
  rintro ⟨found, -, listed, hlisted, hrows⟩
  have htwo : (listed.filter fun (e : App) => e.id = (Supply.growing.suffix 7).toId .app).length = 2 := by
    cases hlisted
    decide
  have hone : found.toList.length ≤ 1 := by cases found <;> simp
  have hlength := congrArg List.length hrows
  exact absurd (htwo.symm.trans hlength) (by omega)

theorem run_reads_conflict :
    let session := (empty .growing).run conflict
    let history := (empty .growing).history conflict
    let id := (Supply.growing.suffix 7).toId .app
    (Function.Injective Supply.growing.suffix ∧ (∀ command ∈ conflict, command.Offered) ∧
        session.staged? "first" ≠ none ∧ Event.Conflicting "first" history .app id) ∧
      ∃ theirs own : App, theirs ∈ (Event.committedRows history).rows .app ∧
        own ∈ (Event.writtenBy "first" history).rows .app ∧
        (session.step (.get "first" .app id)).1 = .found .app (some own) ∧
        session.Lists "first" .app id [theirs, own] ∧
        ∃ error, (session.step (.commit "first")).1 = .refused error := by
  intro session history id
  have hopen : session.staged? "first" ≠ none := nofun
  have hconflict : Event.Conflicting "first" history .app id := by decide
  exact ⟨⟨Supply.growing_injective, conflict_offered, hopen, hconflict⟩,
    (run_reads Supply.growing_injective conflict_offered hopen .app id).2 hconflict⟩

end Session

end ContentStore

import ContentStore.Proofs.Store.Reads

/-!
# Isolation of transactions

A transaction reads its own rows and those of transactions that committed, and nothing else. A row that it
has once found under an id stays there, whatever others do: for the transaction itself as long as it is
open, and after its commit for every transaction that begins.
-/

namespace ContentStore

namespace Tables

variable {committed staged rows more : Tables} {kind : Kind} {id : RealId kind} {e : Entity kind}

theorem get?_eq_none_of_free (hfree : ∀ row ∈ rows.rows kind, committed.contains kind row.id = false)
    (hc : committed.get? kind id = some e) : rows.get? kind id = none := by
  cases hrow : rows.get? kind id with
  | none => rfl
  | some row =>
      have hrowFree := hfree row (mem_rows_of_get? hrow)
      rw [id_of_get? hrow, contains_of_get? hc] at hrowFree
      cases hrowFree

/-- What is seen under an id stays seen, if no committed id is staged anew. -/
theorem seen_append (h : (staged.get? kind id).or (committed.get? kind id) = some e)
    (hfree : ∀ row ∈ rows.rows kind, committed.contains kind row.id = false) :
    ((staged ++ rows).get? kind id).or ((committed ++ more).get? kind id) = some e := by
  rw [get?_append, get?_append]
  cases hs : staged.get? kind id with
  | some own =>
      rw [hs, Option.some_or] at h
      rw [h, Option.some_or, Option.some_or]
  | none =>
      rw [hs, Option.none_or] at h
      rw [get?_eq_none_of_free hfree h, h, Option.none_or, Option.none_or, Option.some_or]

/-- What is seen under an id is what a commit leaves under it. -/
theorem seen_commit (h : (staged.get? kind id).or (committed.get? kind id) = some e)
    (hclear : ∀ row ∈ staged.rows kind, committed.contains kind row.id = false) :
    (committed ++ staged).get? kind id = some e := by
  rw [get?_append]
  cases hc : committed.get? kind id with
  | some theirs =>
      rw [get?_eq_none_of_free hclear hc, hc, Option.none_or] at h
      rw [h, Option.some_or]
  | none =>
      rw [hc, Option.or_none] at h
      rw [h, Option.none_or]

theorem forall_mem_single {p : (kind : Kind) → Entity kind → Prop} (h : p kind e) (other : Kind) :
    ∀ row ∈ (single e).rows other, p other row := by
  intro row hrow
  by_cases ho : other = kind
  · subst ho
    rw [rows_single_self, List.mem_singleton] at hrow
    exact hrow ▸ h
  · rw [rows_single_of_ne ho] at hrow
    cases hrow

end Tables

/-! ### Whose rows are read -/

/-- A reply shows a row. -/
inductive Reply.Shows {kind : Kind} (e : Entity kind) : Reply → Prop where
  | found : Reply.Shows e (.found kind (some e))
  | listed {rows : List (Entity kind)} (mem : e ∈ rows) : Reply.Shows e (.listed kind rows)

def Command.reader? : Command → Option String
  | .get name _ _ | .list name _ | .documentsOf name _ => some name
  | _ => none

namespace Event

/-- A row was written by a transaction whose commit went through. -/
def Committed (history : List Event) {kind : Kind} (e : Entity kind) : Prop :=
  ∃ later commit earlier name, history = later ++ commit :: earlier ∧
    commit.committed? = some name ∧ e ∈ (writtenBy name earlier).rows kind

theorem committed_of_mem {history : List Event} {kind : Kind} {e : Entity kind}
    (h : e ∈ (committedRows history).rows kind) : Committed history e := by
  induction history with
  | nil =>
      rw [committedRows, Tables.rows_empty] at h
      cases h
  | cons event earlier ih =>
      have hkept : e ∈ (committedRows earlier).rows kind → Committed (event :: earlier) e := by
        intro hearlier
        obtain ⟨later, commit, before, name, rfl, hcommit, he⟩ := ih hearlier
        exact ⟨event :: later, commit, before, name, rfl, hcommit, he⟩
      unfold committedRows at h
      split at h
      · next name hcommit =>
          rw [Tables.rows_append] at h
          rcases List.mem_append.1 h with hearlier | hnew
          · exact hkept hearlier
          · exact ⟨[], event, earlier, name, rfl, hcommit, hnew⟩
      · exact hkept h

end Event

namespace Session

variable {session : Session} {name : String} {kind : Kind} {id : RealId kind} {e : Entity kind}

theorem exists_staged_of_shows {command : Command} (hr : command.reader? = some name)
    (hshows : (session.step command).1.Shows e) :
    ∃ staged, session.staged? name = some staged ∧
      (e ∈ session.store.committed.rows kind ∨ e ∈ staged.rows kind) := by
  cases hstaged : session.staged? name with
  | none =>
      cases command with
      | get | list | documentsOf =>
          cases hr
          simp only [step, read, hstaged] at hshows
          cases hshows
      | _ => cases hr
  | some staged =>
      refine ⟨staged, rfl, ?_⟩
      cases command with
      | get _ other id =>
          cases hr
          rw [step_get hstaged] at hshows
          generalize hfound : (staged.get? other id).or (session.store.committed.get? other id) = found
            at hshows
          cases hshows
          rcases Option.or_eq_some_iff.1 hfound with hown | ⟨-, hcommitted⟩
          · exact .inr (Tables.mem_rows_of_get? hown)
          · exact .inl (Tables.mem_rows_of_get? hcommitted)
      | list _ other =>
          cases hr
          rw [step_list hstaged] at hshows
          cases hshows with
          | listed mem => exact List.mem_append.1 mem
      | documentsOf _ collection =>
          cases hr
          rw [step_documentsOf hstaged] at hshows
          cases hshows with
          | listed mem => exact List.mem_append.1 (List.mem_filter.1 mem).1
      | _ => cases hr

/-- A reader is shown rows of its own and rows of transactions that committed. -/
theorem Follows.shows {history : List Event} (h : session.Follows history) {command : Command}
    (hr : command.reader? = some name) (hshows : (session.step command).1.Shows e) :
    e ∈ (Event.writtenBy name history).rows kind ∨ Event.Committed history e := by
  obtain ⟨staged, hstaged, hmem⟩ := exists_staged_of_shows hr hshows
  rw [← h.staged_eq name staged hstaged]
  rw [h.committed_eq] at hmem
  exact hmem.symm.imp_right Event.committed_of_mem

/-! ### What a command does to the rows that a transaction sees -/

/-- Ids are distinct, and those of committed categories were taken from the supply. -/
structure Sound (suffix : Nat → IdSuffix) (session : Session) : Prop where
  distinct : session.Distinct suffix
  minted : Minted session.supply session.store.committed

theorem Minted.append {supply : Supply} {t more : Tables} (h : Minted supply t)
    (hmore : Minted supply more)
    (hclear : ∀ kind, ∀ e ∈ more.rows kind, t.contains kind e.id = false) :
    Minted supply (t ++ more) where
  distinct := h.distinct.append hmore.distinct hclear
  categories category hm := (List.mem_append.1 hm).elim (h.categories category) (hmore.categories category)

/-- A new id of a supply that never repeats is no committed one. -/
theorem Minted.not_contains_new {supply : Supply} {t : Tables} (h : Minted supply t)
    (hs : Function.Injective supply.suffix) :
    t.contains .collectionCategory ((supply.suffix supply.used).toId .collectionCategory) = false := by
  refine Bool.eq_false_iff.2 fun hc => ?_
  obtain ⟨row, hrow, hrowId⟩ := Tables.contains_iff.1 hc
  obtain ⟨n, hn, hid⟩ := h.categories row hrow
  have hsame := hs (toId_injective (hid.symm.trans hrowId))
  omega

variable {suffix : Nat → IdSuffix} {after : Session} {command : Command}

theorem Sound.moves (h : session.Sound suffix) (hs : Function.Injective suffix) {event : Event}
    (hm : session.Moves after event) (ho : event.command.Offered) : after.Sound suffix := by
  refine ⟨h.distinct.moves hs hm ho, ?_⟩
  cases hm with
  | created _ _ committed_eq supply_eq =>
      rw [committed_eq, supply_eq]
      exact h.minted.advance
  | @committed name staged isOpen clear committed_eq supply_eq =>
      rw [committed_eq, supply_eq]
      exact h.minted.append (h.distinct.staged name staged isOpen) clear
  | begun committed_eq supply_eq | inserted _ _ committed_eq supply_eq
  | closed _ committed_eq supply_eq | idle _ committed_eq supply_eq =>
      rw [committed_eq, supply_eq]
      exact h.minted

theorem Sound.step (h : session.Sound suffix) (hs : Function.Injective suffix) (ho : command.Offered) :
    (session.step command).2.Sound suffix :=
  h.moves hs (moves_step session command) ho

theorem Sound.run (h : session.Sound suffix) (hs : Function.Injective suffix) {commands : List Command}
    (ho : ∀ command ∈ commands, command.Offered) : (session.run commands).Sound suffix := by
  induction commands generalizing session with
  | nil => exact h
  | cons command rest ih =>
      exact ih (h.step hs (ho command (by simp))) fun other hm => ho other (by simp [hm])

theorem sound_empty (supply : Supply) : (empty supply).Sound supply.suffix where
  distinct := ⟨rfl, Tables.distinctIds_empty, fun _ _ h => nomatch h⟩
  minted := ⟨Tables.distinctIds_empty, List.forall_mem_nil _⟩

/-- Committed rows stay, with more behind them. -/
theorem Moves.committed_grows {event : Event} (h : session.Moves after event) :
    ∃ more, after.store.committed = session.store.committed ++ more := by
  cases h with
  | @committed name staged _ _ committed_eq => exact ⟨staged, committed_eq⟩
  | begun committed_eq | inserted _ _ committed_eq | created _ _ committed_eq | closed _ committed_eq
  | idle _ committed_eq => exact ⟨{}, committed_eq.trans (Tables.append_empty _).symm⟩

theorem committed_free_of_inserted {row : Entity kind} (h : (session.step (.insert name row)).1 = .done) :
    session.store.committed.contains kind row.id = false := by
  cases hs : session.staged? name with
  | none =>
      simp only [Session.step, write, hs] at h
      cases h
  | some staged =>
      rcases (session.work staged).insert_cases session.store.committed row with
        ⟨error, work, hw, -⟩ | ⟨work, hw, -, -, hfree, -⟩
      · simp only [Session.step, write, hs, hw, Except.map] at h
        cases h
      · exact hfree

/-- The staged rows of a transaction that does not begin anew are gone, or stay with more behind them, of
which none has a committed id. -/
theorem Sound.step_staged (h : session.Sound suffix) (hs : Function.Injective suffix)
    (hb : command ≠ .begin name) :
    (session.step command).2.staged? name = none ∨
    ∃ staged rows, session.staged? name = some staged ∧
      (session.step command).2.staged? name = some (staged ++ rows) ∧
      ∀ kind, ∀ row ∈ rows.rows kind, session.store.committed.contains kind row.id = false := by
  have hm := moves_step session command
  generalize hreply : (session.step command).1 = reply at hm
  generalize (session.step command).2 = after at hm
  have hkept : after.staged? name = session.staged? name →
      after.staged? name = none ∨ ∃ staged rows, session.staged? name = some staged ∧
        after.staged? name = some (staged ++ rows) ∧
        ∀ kind, ∀ row ∈ rows.rows kind, session.store.committed.contains kind row.id = false := by
    intro hsame
    cases hstaged : session.staged? name with
    | none => exact .inl (hsame.trans hstaged)
    | some staged =>
        refine .inr ⟨staged, {}, rfl, ?_, by simp⟩
        rw [hsame, hstaged, Tables.append_empty]
  cases hm with
  | begun _ _ sets => exact hkept (sets.others name fun hn => hb (hn ▸ rfl))
  | @inserted other staged _ row isOpen _ _ _ sets =>
      by_cases hn : name = other
      · subst hn
        refine .inr ⟨staged, .single row, isOpen, ?_, ?_⟩
        · rw [sets.own, Tables.push_eq_append]
        · exact Tables.forall_mem_single (committed_free_of_inserted hreply)
      · exact hkept (sets.others name hn)
  | @created other _ _ _ staged category isOpen id_eq _ _ sets =>
      by_cases hn : name = other
      · subst hn
        have hfree := h.minted.not_contains_new (h.distinct.suffix_eq ▸ hs)
        rw [← id_eq] at hfree
        refine .inr ⟨staged, @Tables.single .collectionCategory category, isOpen, ?_, ?_⟩
        · rw [sets.own, Tables.push_eq_append]
        · exact Tables.forall_mem_single hfree
      · exact hkept (sets.others name hn)
  | @committed other _ _ _ _ _ sets =>
      by_cases hn : name = other
      · exact .inl (hn ▸ sets.own)
      · exact hkept (sets.others name hn)
  | @closed _ other _ _ _ sets =>
      by_cases hn : name = other
      · exact .inl (hn ▸ sets.own)
      · exact hkept (sets.others name hn)
  | idle _ _ _ staged_eq => exact hkept (staged_eq name)

/-! ### What a transaction has found stays -/

/-- An open transaction finds a row under an id. -/
def Sees (session : Session) (name : String) {kind : Kind} (id : RealId kind) (e : Entity kind) : Prop :=
  ∃ staged, session.staged? name = some staged ∧
    (staged.get? kind id).or (session.store.committed.get? kind id) = some e

theorem sees_iff : session.Sees name id e ↔ (session.step (.get name kind id)).1 = .found kind (some e) := by
  constructor
  · rintro ⟨staged, hstaged, hfound⟩
    rw [step_get hstaged, hfound]
  · intro h
    cases hstaged : session.staged? name with
    | none =>
        simp only [Session.step, read, hstaged] at h
        cases h
    | some staged =>
        rw [step_get hstaged] at h
        exact ⟨staged, hstaged, by simpa using h⟩

/-- Either a transaction is over, or it still finds the row. -/
def Holds (session : Session) (name : String) {kind : Kind} (id : RealId kind) (e : Entity kind) : Prop :=
  session.staged? name = none ∨ session.Sees name id e

theorem Holds.step (h : session.Holds name id e) (hsound : session.Sound suffix)
    (hs : Function.Injective suffix) (hb : command ≠ .begin name) :
    (session.step command).2.Holds name id e := by
  rcases hsound.step_staged hs hb with hover | ⟨staged, rows, hstaged, hafter, hfree⟩
  · exact .inl hover
  · rcases h with hclosed | ⟨seen, hseen, hfound⟩
    · cases hclosed.symm.trans hstaged
    · cases hseen.symm.trans hstaged
      obtain ⟨more, hmore⟩ := (moves_step session command).committed_grows
      refine .inr ⟨staged ++ rows, hafter, ?_⟩
      rw [hmore]
      exact Tables.seen_append hfound (hfree kind)

theorem Holds.run (h : session.Holds name id e) (hsound : session.Sound suffix)
    (hs : Function.Injective suffix) {commands : List Command}
    (ho : ∀ command ∈ commands, command.Offered) (hb : ∀ command ∈ commands, command ≠ .begin name) :
    (session.run commands).Holds name id e := by
  induction commands generalizing session with
  | nil => exact h
  | cons command rest ih =>
      exact ih (h.step hsound hs (hb command (by simp))) (hsound.step hs (ho command (by simp)))
        (fun other hm => ho other (by simp [hm])) fun other hm => hb other (by simp [hm])

/-- What a transaction has found is committed under the id once its commit went through. -/
theorem Sees.committed (h : session.Sees name id e) (hdone : (session.step (.commit name)).1 = .done) :
    (session.step (.commit name)).2.store.committed.get? kind id = some e := by
  obtain ⟨staged, hstaged, hfound⟩ := h
  cases hcommit : session.store.committed.commit staged with
  | error error =>
      simp only [Session.step, hstaged, hcommit] at hdone
      cases hdone
  | ok rows =>
      obtain ⟨hclear, rfl⟩ := Tables.commit_eq_ok_iff.1 hcommit
      simp only [Session.step, hstaged, hcommit]
      exact Tables.seen_commit hfound (hclear kind)

/-- A committed row stays under its id, and is found by every transaction that begins. -/
theorem get?_step (h : session.store.committed.get? kind id = some e) (command : Command) :
    (session.step command).2.store.committed.get? kind id = some e := by
  obtain ⟨more, hmore⟩ := (moves_step session command).committed_grows
  rw [hmore, Tables.get?_append, h, Option.some_or]

theorem get?_run (h : session.store.committed.get? kind id = some e) (commands : List Command) :
    (session.run commands).store.committed.get? kind id = some e := by
  induction commands generalizing session with
  | nil => exact h
  | cons command rest ih => exact ih (get?_step h command)

theorem holds_begin (h : session.store.committed.get? kind id = some e) (name : String) :
    (session.step (.begin name)).2.Holds name id e := by
  refine .inr ⟨{}, session.staged?_setStaged_self name {}, ?_⟩
  rw [Tables.get?_eq_none_of_contains (by simp [Tables.contains, Tables.get?]), Option.none_or]
  exact h

/-- The transactions that are begun after a commit find what the committed transaction has found. -/
theorem Sees.begun_later (h : session.Sees name id e) (hsound : session.Sound suffix)
    (hs : Function.Injective suffix) (hdone : (session.step (.commit name)).1 = .done) (other : String)
    {between since : List Command} (hbetween : ∀ command ∈ between, command.Offered)
    (hsince : ∀ command ∈ since, command.Offered ∧ command ≠ .begin other) :
    ((session.step (.commit name)).2.run (between ++ .begin other :: since)).Holds other id e := by
  have hcommitted := get?_run (h.committed hdone) between
  have hended : (session.step (.commit name)).2.Sound suffix := hsound.step hs trivial
  have hnow := hended.run hs hbetween
  have hrun : (session.step (.commit name)).2.run (between ++ .begin other :: since) =
      ((((session.step (.commit name)).2.run between).step (.begin other)).2).run since := by
    simp only [run, List.foldl_append, List.foldl_cons]
  rw [hrun]
  exact (holds_begin hcommitted other).run (hnow.step hs trivial) hs
    (fun command hm => (hsince command hm).1) fun command hm => (hsince command hm).2

theorem Holds.get_eq (h : session.Holds name id e) (hopen : session.staged? name ≠ none) :
    (session.step (.get name kind id)).1 = .found kind (some e) :=
  sees_iff.1 (h.resolve_left hopen)

/-- In every run, a transaction is shown only rows that it wrote itself or that were written by transactions
whose commit went through. When a get has found a row, every later get of the id in that transaction finds
the same row, whatever other transactions do in between. When the transaction commits, every get of the id
in a transaction begun after that finds the row too. -/
theorem run_isolated {supply : Supply} (hs : Function.Injective supply.suffix) {commands : List Command}
    (ho : ∀ command ∈ commands, command.Offered) :
    let session := (empty supply).run commands
    let history := (empty supply).history commands
    (∀ (command : Command) (name : String) (kind : Kind) (e : Entity kind),
      command.reader? = some name → (session.step command).1.Shows e →
        e ∈ (Event.writtenBy name history).rows kind ∨ Event.Committed history e) ∧
    ∀ (name : String) (kind : Kind) (id : RealId kind) (e : Entity kind),
      (session.step (.get name kind id)).1 = .found kind (some e) →
      ∀ later : List Command, (∀ command ∈ later, command.Offered ∧ command ≠ .begin name) →
        (((session.run later).staged? name ≠ none →
          ((session.run later).step (.get name kind id)).1 = .found kind (some e)) ∧
        (((session.run later).step (.commit name)).1 = .done →
          ∀ (other : String) (between since : List Command), (∀ command ∈ between, command.Offered) →
            (∀ command ∈ since, command.Offered ∧ command ≠ .begin other) →
            let last := ((session.run later).step (.commit name)).2.run (between ++ .begin other :: since)
            last.staged? other ≠ none → (last.step (.get other kind id)).1 = .found kind (some e))) := by
  intro session history
  have hsound : session.Sound supply.suffix := (sound_empty supply).run hs ho
  refine ⟨fun command name kind e hr hshows => (follows_run supply commands).shows hr hshows, ?_⟩
  intro name kind id e hfound later hlater
  have hoffered : ∀ command ∈ later, command.Offered := fun command hm => (hlater command hm).1
  have hholds : (session.run later).Holds name id e :=
    Holds.run (.inr (sees_iff.2 hfound)) hsound hs hoffered fun command hm => (hlater command hm).2
  refine ⟨hholds.get_eq, ?_⟩
  intro hdone other between since hbetween hsince last hopen
  have hopenNow : (session.run later).staged? name ≠ none := by
    intro hclosed
    simp only [Session.step, hclosed] at hdone
    cases hdone
  have hsees := hholds.resolve_left hopenNow
  exact (hsees.begun_later (hsound.run hs hoffered) hs hdone other hbetween hsince).get_eq hopen

/-- The first of two transactions finds its own app while the other one tries the same id, and a third one
finds it after the commit. -/
theorem run_isolated_rivals :
    let id : AppId := (Supply.growing.suffix 7).toId .app
    let app (name : String) : App := {
      id, appType := "", name, targets := [], files := SortedMap.empty, createdAt := 0 }
    let commands : List Command := [.begin "first", .begin "second", @Command.insert "first" .app (app "Mine")]
    let later : List Command := [@Command.insert "second" .app (app "Theirs")]
    let session := (empty .growing).run commands
    let last := ((session.run later).step (.commit "first")).2.run ([.commit "second"] ++ [.begin "third"])
    (Function.Injective Supply.growing.suffix ∧ ∀ command ∈ commands, command.Offered) ∧
      (session.step (.get "first" .app id)).1 = .found .app (some (app "Mine")) ∧
      ((session.run later).step (.get "first" .app id)).1 = .found .app (some (app "Mine")) ∧
      ((session.run later).step (.commit "first")).1 = .done ∧
      (last.step (.get "third" .app id)).1 = .found .app (some (app "Mine")) := by
  intro id app commands later session last
  have hoffered : ∀ command ∈ commands, command.Offered := by simp [commands, Command.Offered]
  have hlater : ∀ command ∈ later, command.Offered ∧ command ≠ .begin "first" := by
    simp [later, Command.Offered]
  have hfound : (session.step (.get "first" .app id)).1 = .found .app (some (app "Mine")) := rfl
  have hdone : ((session.run later).step (.commit "first")).1 = .done := rfl
  obtain ⟨hget, hbegun⟩ :=
    (run_isolated Supply.growing_injective hoffered).2 "first" .app id (app "Mine") hfound later hlater
  have hopen : ((session.run later).staged? "first").isSome = true := rfl
  have hbegan : (last.staged? "third").isSome = true := rfl
  refine ⟨⟨Supply.growing_injective, hoffered⟩, hfound, hget (Option.isSome_iff_ne_none.1 hopen), hdone, ?_⟩
  exact hbegun hdone "third" [.commit "second"] [] (by simp [Command.Offered]) (by simp)
    (Option.isSome_iff_ne_none.1 hbegan)

end Session

end ContentStore

import ContentStore.Proofs.Store.Session
import Mathlib.Data.List.Induction

/-!
# Histories of sessions

However the commands of several transactions are mixed, the committed rows are those of the transactions
that committed, one transaction after another. What a transaction wrote and whether it committed is told by
the replies alone.
-/

namespace ContentStore

/-! ## Histories -/

namespace Event

/-- What the transaction of a name has written since it began. The latest event comes first. -/
def writtenBy (name : String) : List Event → Tables
  | [] => {}
  | event :: earlier =>
      if event.begins name then {} else writtenBy name earlier ++ event.written name

/-- The rows of the transactions that committed, in the order of their commits. The latest event comes
first. -/
def committedRows : List Event → Tables
  | [] => {}
  | event :: earlier =>
      match event.committed? with
      | some name => committedRows earlier ++ writtenBy name earlier
      | none => committedRows earlier

theorem writtenBy_cons_of_silent {event : Event} (h : event.Silent) (name : String)
    (earlier : List Event) : writtenBy name (event :: earlier) = writtenBy name earlier := by
  simp [writtenBy, h.begins name, h.written name]

end Event

/-- A command that the store offers: categories are created by the store itself and cannot be inserted. -/
def Command.Offered : Command → Prop
  | @Command.insert _ kind _ => kind ≠ .collectionCategory
  | _ => True

namespace Session

def events (session : Session) : List Command → List Event
  | [] => []
  | command :: rest =>
      ⟨command, (session.step command).1⟩ :: (session.step command).2.events rest

/-- The events of a run, the latest first. -/
def history (session : Session) (commands : List Command) : List Event :=
  (session.events commands).reverse

theorem events_append (session : Session) (commands more : List Command) :
    session.events (commands ++ more) =
      session.events commands ++ (session.run commands).events more := by
  induction commands generalizing session with
  | nil => rfl
  | cons command rest ih => exact congrArg _ (ih (session.step command).2)

theorem history_append_singleton (session : Session) (commands : List Command) (command : Command) :
    session.history (commands ++ [command]) =
      ⟨command, ((session.run commands).step command).1⟩ :: session.history commands := by
  simp [history, events_append, events]

theorem run_append_singleton (session : Session) (commands : List Command) (command : Command) :
    session.run (commands ++ [command]) = ((session.run commands).step command).2 := by
  simp [run]

/-! ## The rows of a history -/

/-- The rows of a session are those that its history tells. -/
structure Follows (session : Session) (history : List Event) : Prop where
  committed_eq : session.store.committed = Event.committedRows history
  staged_eq : ∀ name staged, session.staged? name = some staged →
    staged = Event.writtenBy name history

variable {session after : Session} {history : List Event}

/-- Rows that are set for one transaction follow the history if they are what that transaction wrote, and
the event wrote nothing for another one. -/
theorem Follows.of_sets (h : session.Follows history) {event : Event} {name : String}
    {staged : Option Tables}
    (hcommitted : after.store.committed = Event.committedRows (event :: history))
    (hsets : session.Sets after name staged)
    (hown : ∀ rows, staged = some rows → rows = Event.writtenBy name (event :: history))
    (hother : ∀ other, other ≠ name →
      Event.writtenBy other (event :: history) = Event.writtenBy other history) :
    after.Follows (event :: history) where
  committed_eq := hcommitted
  staged_eq other rows hrows := by
    by_cases ho : other = name
    · subst ho
      rw [hsets.own] at hrows
      exact hown rows hrows
    · rw [hsets.others other ho] at hrows
      rw [hother other ho]
      exact h.staged_eq other rows hrows

/-- A command leaves a session that follows its history so. -/
theorem Follows.moves (h : session.Follows history) {event : Event} (hm : session.Moves after event) :
    after.Follows (event :: history) := by
  cases hm with
  | @begun name reply committed_eq _ sets =>
      refine h.of_sets (committed_eq.trans h.committed_eq) sets ?_ ?_
      · rintro rows ⟨⟩
        simp [Event.writtenBy, Event.begins]
      · intro other ho
        simp [Event.writtenBy, Event.begins, Event.written, ho.symm]
  | @inserted name staged kind e isOpen _ committed_eq _ sets =>
      have hstaged := h.staged_eq name staged isOpen
      refine h.of_sets (committed_eq.trans h.committed_eq) sets ?_ ?_
      · rintro rows ⟨⟩
        simp [Event.writtenBy, Event.begins, Event.written, ← hstaged, Tables.push_eq_append]
      · intro other ho
        simp [Event.writtenBy, Event.begins, Event.written, ho.symm]
  | @created name _ _ _ staged category isOpen _ committed_eq _ sets =>
      have hstaged := h.staged_eq name staged isOpen
      refine h.of_sets (committed_eq.trans h.committed_eq) sets ?_ ?_
      · rintro rows ⟨⟩
        simp [Event.writtenBy, Event.begins, Event.written, ← hstaged, Tables.push_eq_append]
      · intro other ho
        simp [Event.writtenBy, Event.begins, Event.written, ho.symm]
  | @committed name staged isOpen _ committed_eq _ sets =>
      have hstaged := h.staged_eq name staged isOpen
      refine h.of_sets ?_ sets (fun _ he => nomatch he) ?_
      · rw [committed_eq, h.committed_eq, hstaged]
        rfl
      · intro other _
        simp [Event.writtenBy, Event.begins, Event.written]
  | closed silent committed_eq _ sets =>
      refine h.of_sets ?_ sets (fun _ he => nomatch he) ?_
      · rw [committed_eq, h.committed_eq, Event.committedRows, silent.committed]
      · intro other _
        exact Event.writtenBy_cons_of_silent silent other history
  | idle silent committed_eq _ staged_eq =>
      constructor
      · rw [committed_eq, h.committed_eq, Event.committedRows, silent.committed]
      · intro name staged hstaged
        rw [Event.writtenBy_cons_of_silent silent]
        rw [staged_eq] at hstaged
        exact h.staged_eq name staged hstaged

theorem follows_run (supply : Supply) (commands : List Command) :
    ((empty supply).run commands).Follows ((empty supply).history commands) := by
  induction commands using List.reverseRecOn with
  | nil => exact ⟨rfl, fun _ _ h => nomatch h⟩
  | append_singleton commands command ih =>
      rw [run_append_singleton, history_append_singleton]
      exact ih.moves (moves_step _ command)

/-! ## Distinct ids -/

/-- The ids of staged rows are distinct, and those of staged categories were taken from the supply. -/
structure Minted (supply : Supply) (staged : Tables) : Prop where
  distinct : staged.DistinctIds
  categories : ∀ category ∈ staged.categories, ∃ n, n < supply.used ∧
    category.id = (supply.suffix n).toId .collectionCategory

/-- The committed ids of a session are distinct, and so are those that each transaction has staged. -/
structure Distinct (suffix : Nat → IdSuffix) (session : Session) : Prop where
  suffix_eq : session.supply.suffix = suffix
  committed : session.store.committed.DistinctIds
  staged : ∀ name staged, session.staged? name = some staged → Minted session.supply staged

theorem toId_injective {a b : IdSuffix} {kind : Kind} (h : a.toId kind = b.toId kind) : a = b := by
  have htext : (a.toId kind).text.toList = (b.toId kind).text.toList := by rw [h]
  simp only [IdSuffix.toId, String.toList_ofList, List.append_cancel_left_eq, List.cons.injEq,
    true_and] at htext
  cases a
  cases b
  cases htext
  rfl

theorem Minted.advance {supply : Supply} {staged : Tables} (h : Minted supply staged) :
    Minted { supply with used := supply.used + 1 } staged where
  distinct := h.distinct
  categories category hm := by
    obtain ⟨n, hn, hid⟩ := h.categories category hm
    exact ⟨n, Nat.lt_succ_of_lt hn, hid⟩

/-- A row of another kind may be staged under a free id. -/
theorem Minted.insert {supply : Supply} {staged : Tables} (h : Minted supply staged) {kind : Kind}
    {e : Entity kind} (hk : kind ≠ .collectionCategory) (hfree : staged.contains kind e.id = false) :
    Minted supply (staged.push e) where
  distinct := h.distinct.push hfree
  categories := by
    have hsame : (staged.push e).categories = staged.categories := staged.rows_push_of_ne hk.symm e
    rw [hsame]
    exact h.categories

/-- A new id of a supply that never repeats is none of those taken before. -/
theorem Minted.contains_new {supply : Supply} {staged : Tables} (h : Minted supply staged)
    (hs : Function.Injective supply.suffix) :
    staged.contains .collectionCategory ((supply.suffix supply.used).toId .collectionCategory) = false := by
  apply Bool.eq_false_iff.2
  intro hc
  obtain ⟨row, hrow, hrowId⟩ := Tables.contains_iff.1 hc
  obtain ⟨n, hn, hnId⟩ := h.categories row hrow
  have hsame : supply.suffix n = supply.suffix supply.used :=
    toId_injective (hnId.symm.trans hrowId)
  have hnUsed := hs hsame
  omega

theorem Minted.create {supply : Supply} {staged : Tables} (h : Minted supply staged)
    (hs : Function.Injective supply.suffix) {category : CollectionCategory}
    (hid : category.id = (supply.suffix supply.used).toId .collectionCategory) :
    Minted { supply with used := supply.used + 1 }
      (@Tables.push staged .collectionCategory category) where
  distinct := by
    apply h.distinct.push
    exact (congrArg _ hid).trans (h.contains_new hs)
  categories row hm := by
    rcases List.mem_append.1 hm with hm | hm
    · exact h.advance.categories row hm
    · rw [List.mem_singleton.1 hm]
      exact ⟨supply.used, Nat.lt_succ_self _, hid⟩

variable {suffix : Nat → IdSuffix}

theorem Distinct.of_sets (h : session.Distinct suffix) {name : String} {staged : Option Tables}
    (hsuffix : after.supply.suffix = suffix) (hcommitted : after.store.committed.DistinctIds)
    (hsets : session.Sets after name staged)
    (hown : ∀ rows, staged = some rows → Minted after.supply rows)
    (hother : ∀ rows, Minted session.supply rows → Minted after.supply rows) :
    after.Distinct suffix where
  suffix_eq := hsuffix
  committed := hcommitted
  staged other rows hrows := by
    by_cases ho : other = name
    · subst ho
      rw [hsets.own] at hrows
      exact hown rows hrows
    · rw [hsets.others other ho] at hrows
      exact hother rows (h.staged other rows hrows)

/-- A command keeps ids distinct, as long as the supply never repeats and the store alone creates
categories. -/
theorem Distinct.moves (h : session.Distinct suffix) (hs : Function.Injective suffix) {event : Event}
    (hm : session.Moves after event) (ho : event.command.Offered) : after.Distinct suffix := by
  have hsuffix := h.suffix_eq
  cases hm with
  | begun committed_eq supply_eq sets =>
      refine h.of_sets (supply_eq ▸ hsuffix) (committed_eq ▸ h.committed) sets ?_ fun _ hr => supply_eq ▸ hr
      rintro rows ⟨⟩
      exact ⟨Tables.distinctIds_empty, List.forall_mem_nil _⟩
  | @inserted name staged kind e isOpen free committed_eq supply_eq sets =>
      have hstaged := h.staged name staged isOpen
      refine h.of_sets (supply_eq ▸ hsuffix) (committed_eq ▸ h.committed) sets ?_ fun _ hr => supply_eq ▸ hr
      rintro rows ⟨⟩
      rw [supply_eq]
      exact hstaged.insert ho free
  | @created name _ _ _ staged category isOpen id_eq committed_eq supply_eq sets =>
      have hstaged := h.staged name staged isOpen
      refine h.of_sets (by rw [supply_eq]; exact hsuffix) (committed_eq ▸ h.committed) sets ?_ ?_
      · rintro rows ⟨⟩
        rw [supply_eq]
        exact hstaged.create (hsuffix ▸ hs) id_eq
      · intro rows hr
        rw [supply_eq]
        exact hr.advance
  | @committed name staged isOpen clear committed_eq supply_eq sets =>
      have hstaged := h.staged name staged isOpen
      refine h.of_sets (supply_eq ▸ hsuffix) ?_ sets (fun _ he => nomatch he) fun _ hr => supply_eq ▸ hr
      rw [committed_eq]
      exact h.committed.append hstaged.distinct clear
  | closed _ committed_eq supply_eq sets =>
      exact h.of_sets (supply_eq ▸ hsuffix) (committed_eq ▸ h.committed) sets (fun _ he => nomatch he)
        fun _ hr => supply_eq ▸ hr
  | idle _ committed_eq supply_eq staged_eq =>
      refine ⟨supply_eq ▸ hsuffix, committed_eq ▸ h.committed, fun name rows hrows => ?_⟩
      rw [staged_eq] at hrows
      rw [supply_eq]
      exact h.staged name rows hrows

theorem distinct_run {supply : Supply} (hs : Function.Injective supply.suffix) {commands : List Command}
    (ho : ∀ command ∈ commands, command.Offered) :
    ((empty supply).run commands).Distinct supply.suffix := by
  induction commands using List.reverseRecOn with
  | nil => exact ⟨rfl, Tables.distinctIds_empty, fun _ _ h => nomatch h⟩
  | append_singleton commands command ih =>
      rw [run_append_singleton]
      have hcommands : ∀ command ∈ commands, command.Offered :=
        fun command hm => ho command (List.mem_append_left _ hm)
      exact (ih hcommands).moves hs (moves_step _ command) (ho command (by simp))

end Session

/-- A supply of ever longer suffixes, of which none comes twice. -/
def Supply.growing : Supply where
  suffix n := ⟨List.replicate (n + 1) 'a', by
    have hchar : RealId.suffixChar 'a' = true := by decide
    simp [RealId.validSuffix, hchar]⟩
  used := 0
  now := 0

theorem Supply.growing_injective : Function.Injective Supply.growing.suffix := by
  intro m n h
  have hlength := congrArg (fun suffix => suffix.chars.length) h
  simpa [growing] using hlength

end ContentStore

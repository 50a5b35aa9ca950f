import ContentStore.Proofs.Store.Rows
import ContentStore.Store.Session

/-!
# What a command does to a session

Of the commands, a successful commit alone changes the committed rows. All others change at most the staged
rows of the one transaction that they name.
-/

namespace ContentStore

/-! ## Writes and commits of one transaction -/

namespace Tables

/-- A commit goes through exactly where no staged id is committed already. -/
theorem commit_eq_ok_iff {committed staged after : Tables} :
    committed.commit staged = .ok after ↔
      (∀ kind, ∀ e ∈ staged.rows kind, committed.contains kind e.id = false) ∧
        after = committed ++ staged := by
  have hkind : ∀ kind, clash? committed staged kind = none ↔
      ∀ e ∈ staged.rows kind, committed.contains kind e.id = false := by
    intro kind
    simp [clash?]
  have hclash : Kind.all.findSome? (clash? committed staged) = none ↔
      ∀ kind, ∀ e ∈ staged.rows kind, committed.contains kind e.id = false := by
    rw [List.findSome?_eq_none_iff]
    constructor
    · intro h kind
      exact (hkind kind).1 (h kind (Kind.mem_all kind))
    · intro h kind _
      exact (hkind kind).2 (h kind)
  rw [← hclash]
  unfold commit
  cases Kind.all.findSome? (clash? committed staged) with
  | some error => simp
  | none => simp [eq_comm]

/-- No id of a kind stands twice. -/
def DistinctIds (t : Tables) : Prop :=
  ∀ kind, ((t.rows kind).map Entity.id).Nodup

variable {t more : Tables} {kind : Kind}

theorem distinctIds_empty : DistinctIds {} := by
  intro kind
  simp

theorem DistinctIds.push (h : t.DistinctIds) {e : Entity kind} (hfree : t.contains kind e.id = false) :
    (t.push e).DistinctIds := by
  have hkind : ∀ other, Clear {} t other := fun other => ⟨fun _ _ => by simp [contains, get?], h other⟩
  intro other
  by_cases ho : other = kind
  · subst ho
    exact ((hkind other).push (by simp [contains, get?]) hfree).2
  · exact ((hkind other).push_of_ne ho e).2

theorem DistinctIds.append (h : t.DistinctIds) (hmore : more.DistinctIds)
    (hclear : ∀ kind, ∀ e ∈ more.rows kind, t.contains kind e.id = false) :
    (t ++ more).DistinctIds := by
  intro kind
  rw [rows_append, List.map_append, List.nodup_append]
  refine ⟨h kind, hmore kind, ?_⟩
  intro id hid other hother heq
  obtain ⟨row, hrow, hrowId⟩ := List.mem_map.1 hid
  obtain ⟨e, he, heId⟩ := List.mem_map.1 hother
  have hpresent : t.contains kind e.id = true :=
    contains_iff.2 ⟨row, hrow, by rw [hrowId, heId, heq]⟩
  rw [hclear kind e he] at hpresent
  cases hpresent

/-- Where no id stands twice, a row is found under its id, and nothing else is. -/
theorem DistinctIds.get?_eq_some_iff (h : t.DistinctIds) {id : RealId kind} {e : Entity kind} :
    t.get? kind id = some e ↔ e ∈ t.rows kind ∧ e.id = id := by
  constructor
  · intro he
    exact ⟨mem_rows_of_get? he, id_of_get? he⟩
  · rintro ⟨hmem, rfl⟩
    have hclear : Clear {} t kind := ⟨fun _ _ => by simp [contains, get?], h kind⟩
    have hfound := get?_of_clear hclear hmem
    rw [empty_append] at hfound
    exact hfound

end Tables

namespace Work

/-- An insertion that is refused stages nothing; one that is not stages its row under a free id. -/
theorem insert_cases (work : Work) (committed : Tables) {kind : Kind} (e : Entity kind) :
    (∃ error after, work.insert committed e = (.error error, after) ∧ after.staged = work.staged ∧
      after.supply = work.supply) ∨
    ∃ after, work.insert committed e = (.ok (), after) ∧ after.staged = work.staged.push e ∧
      after.supply = work.supply ∧ committed.contains kind e.id = false ∧
      work.staged.contains kind e.id = false := by
  unfold insert
  split
  · exact .inl ⟨_, _, rfl, rfl, rfl⟩
  · dsimp only
    split
    · exact .inl ⟨_, _, rfl, rfl, rfl⟩
    · next hfree =>
        simp only [Bool.or_eq_true, not_or, Bool.not_eq_true] at hfree
        exact .inr ⟨_, rfl, rfl, rfl, hfree.1, hfree.2⟩

/-- A category that is created has the next new id. -/
theorem createCategory_cases (work : Work) (name icon : String)
    (parentId : Option CollectionCategoryId) :
    (∃ error, work.createCategory name icon parentId = (.error error, work)) ∨
    ∃ (category : CollectionCategory) (after : Work),
      work.createCategory name icon parentId = (.ok category, after) ∧
      category.id = (work.supply.suffix work.supply.used).toId .collectionCategory ∧
      after.staged = @Tables.push work.staged .collectionCategory category ∧
      after.supply = { work.supply with used := work.supply.used + 1 } := by
  unfold createCategory
  split
  · exact .inl ⟨_, rfl⟩
  · exact .inr ⟨_, _, rfl, rfl, rfl, rfl⟩

end Work

/-! ## Events -/

structure Event where
  command : Command
  reply : Reply

namespace Event

def begins (event : Event) (name : String) : Bool :=
  match event.command with
  | .begin other => other == name
  | _ => false

def written (event : Event) (name : String) : Tables :=
  match event.command, event.reply with
  | .insert other e, .done => if other = name then .single e else {}
  | .createCategory other _ _ _, .found .collectionCategory (some category) =>
      if other = name then @Tables.single .collectionCategory category else {}
  | _, _ => {}

def committed? (event : Event) : Option String :=
  match event.command, event.reply with
  | .commit name, .done => some name
  | _, _ => none

/-- An event that begins no transaction, writes no row and commits nothing. -/
structure Silent (event : Event) : Prop where
  begins : ∀ name, event.begins name = false
  written : ∀ name, event.written name = {}
  committed : event.committed? = none

end Event

namespace Session

/-! ## One command -/

/-- The staged rows of one transaction are set, those of all others kept. -/
structure Sets (session after : Session) (name : String) (staged : Option Tables) : Prop where
  own : after.staged? name = staged
  others : ∀ other, other ≠ name → after.staged? other = session.staged? other

theorem sets_close (session : Session) (name : String) : session.Sets (session.close name) name none where
  own := session.staged?_close_self name
  others _ ho := session.staged?_close_of_ne ho

theorem sets_setStaged (session : Session) (name : String) (staged : Tables) :
    session.Sets (session.setStaged name staged) name (some staged) where
  own := session.staged?_setStaged_self name staged
  others _ ho := session.staged?_setStaged_of_ne ho staged

/-- Setting what was there keeps the staged rows of every transaction. -/
theorem Sets.keeps {session after : Session} {name : String} {staged : Option Tables}
    (h : session.Sets after name staged) (hs : session.staged? name = staged) (other : String) :
    after.staged? other = session.staged? other := by
  by_cases ho : other = name
  · rw [ho, h.own, hs]
  · exact h.others other ho

/-- What an event did to a session: all that a command can do. -/
inductive Moves (session after : Session) : Event → Prop where
  | begun {name : String} {reply : Reply}
      (committed_eq : after.store.committed = session.store.committed)
      (supply_eq : after.supply = session.supply) (sets : session.Sets after name (some {})) :
      Moves session after ⟨.begin name, reply⟩
  | inserted {name : String} {staged : Tables} {kind : Kind} {e : Entity kind}
      (isOpen : session.staged? name = some staged)
      (free : staged.contains kind e.id = false)
      (committed_eq : after.store.committed = session.store.committed)
      (supply_eq : after.supply = session.supply)
      (sets : session.Sets after name (some (staged.push e))) :
      Moves session after ⟨.insert name e, .done⟩
  | created {name label icon : String} {parentId : Option CollectionCategoryId} {staged : Tables}
      {category : CollectionCategory} (isOpen : session.staged? name = some staged)
      (id_eq : category.id = (session.supply.suffix session.supply.used).toId .collectionCategory)
      (committed_eq : after.store.committed = session.store.committed)
      (supply_eq : after.supply = { session.supply with used := session.supply.used + 1 })
      (sets : session.Sets after name (some (@Tables.push staged .collectionCategory category))) :
      Moves session after
        ⟨.createCategory name label icon parentId, .found .collectionCategory (some category)⟩
  | committed {name : String} {staged : Tables} (isOpen : session.staged? name = some staged)
      (clear : ∀ kind, ∀ e ∈ staged.rows kind, session.store.committed.contains kind e.id = false)
      (committed_eq : after.store.committed = session.store.committed ++ staged)
      (supply_eq : after.supply = session.supply) (sets : session.Sets after name none) :
      Moves session after ⟨.commit name, .done⟩
  | closed {event : Event} {name : String} (silent : event.Silent)
      (committed_eq : after.store.committed = session.store.committed)
      (supply_eq : after.supply = session.supply) (sets : session.Sets after name none) :
      Moves session after event
  | idle {event : Event} (silent : event.Silent)
      (committed_eq : after.store.committed = session.store.committed)
      (supply_eq : after.supply = session.supply)
      (staged_eq : ∀ name, after.staged? name = session.staged? name) :
      Moves session after event

theorem moves_same {session : Session} {event : Event} (h : event.Silent) :
    session.Moves session event :=
  .idle h rfl rfl fun _ => rfl

theorem sets_afterWork (session : Session) (name : String) (work : Work) :
    session.Sets (session.afterWork name work) name (some work.staged) where
  own := staged?_setStaged_self _ name work.staged
  others _ ho := staged?_setStaged_of_ne _ ho work.staged

theorem moves_insert (session : Session) (name : String) {kind : Kind} (e : Entity kind) :
    session.Moves (session.step (.insert name e)).2
      ⟨.insert name e, (session.step (.insert name e)).1⟩ := by
  cases hs : session.staged? name with
  | none =>
      simp only [step, write, hs]
      exact moves_same ⟨fun _ => rfl, fun _ => rfl, rfl⟩
  | some staged =>
      have hcases := (session.work staged).insert_cases session.store.committed e
      rcases hcases with ⟨error, work, hw, hstaged, hsupply⟩ | ⟨work, hw, hstaged, hsupply, -, hfree⟩
      · have hsets := sets_afterWork session name work
        simp only [step, write, hs, hw, Except.map]
        exact .idle ⟨fun _ => rfl, fun _ => rfl, rfl⟩ rfl hsupply
          (hsets.keeps (by rw [hs, hstaged]; rfl))
      · have hsets := sets_afterWork session name work
        rw [hstaged] at hsets
        simp only [step, write, hs, hw, Except.map]
        exact .inserted hs hfree rfl hsupply hsets

theorem moves_createCategory (session : Session) (name label icon : String)
    (parentId : Option CollectionCategoryId) :
    session.Moves (session.step (.createCategory name label icon parentId)).2
      ⟨.createCategory name label icon parentId,
        (session.step (.createCategory name label icon parentId)).1⟩ := by
  cases hs : session.staged? name with
  | none =>
      simp only [step, write, hs]
      exact moves_same ⟨fun _ => rfl, fun _ => rfl, rfl⟩
  | some staged =>
      have hcases := (session.work staged).createCategory_cases label icon parentId
      rcases hcases with ⟨error, hw⟩ | ⟨category, work, hw, hid, hstaged, hsupply⟩
      · have hsets := sets_afterWork session name (session.work staged)
        simp only [step, write, hs, hw, Except.map]
        exact .idle ⟨fun _ => rfl, fun _ => rfl, rfl⟩ rfl rfl (hsets.keeps hs)
      · have hsets := sets_afterWork session name work
        rw [hstaged] at hsets
        simp only [step, write, hs, hw, Except.map]
        exact .created hs hid rfl hsupply hsets

theorem moves_commit (session : Session) (name : String) :
    session.Moves (session.step (.commit name)).2 ⟨.commit name, (session.step (.commit name)).1⟩ := by
  cases hs : session.staged? name with
  | none =>
      simp only [step, hs]
      exact moves_same ⟨fun _ => rfl, fun _ => rfl, rfl⟩
  | some staged =>
      cases hc : session.store.committed.commit staged with
      | error error =>
          simp only [step, hs, hc]
          exact .closed ⟨fun _ => rfl, fun _ => rfl, rfl⟩ rfl rfl (sets_close session name)
      | ok committed =>
          obtain ⟨hclear, hrows⟩ := Tables.commit_eq_ok_iff.1 hc
          have hsets := sets_close session name
          simp only [step, hs, hc]
          exact .committed hs hclear hrows rfl ⟨hsets.own, hsets.others⟩

/-- Every command does one of these things. -/
theorem moves_step (session : Session) (command : Command) :
    session.Moves (session.step command).2 ⟨command, (session.step command).1⟩ := by
  cases command with
  | limitWrites budget => exact .idle ⟨fun _ => rfl, fun _ => rfl, rfl⟩ rfl rfl fun _ => rfl
  | begin name => exact .begun rfl rfl (sets_setStaged session name {})
  | commit name => exact moves_commit session name
  | discard name =>
      cases hs : session.staged? name with
      | none =>
          simp only [step, hs]
          exact moves_same ⟨fun _ => rfl, fun _ => rfl, rfl⟩
      | some staged =>
          simp only [step, hs]
          exact .closed ⟨fun _ => rfl, fun _ => rfl, rfl⟩ rfl rfl (sets_close session name)
  | createCategory name label icon parentId => exact moves_createCategory session name label icon parentId
  | insert name e => exact moves_insert session name e
  | get name kind id => exact moves_same ⟨fun _ => rfl, fun _ => rfl, rfl⟩
  | list name kind => exact moves_same ⟨fun _ => rfl, fun _ => rfl, rfl⟩
  | documentsOf name collection => exact moves_same ⟨fun _ => rfl, fun _ => rfl, rfl⟩

/-- The committed rows change by a successful commit alone. -/
theorem Moves.committed_eq {session after : Session} {event : Event} (h : session.Moves after event)
    (hc : event.committed? = none) : after.store.committed = session.store.committed := by
  cases h with
  | committed => cases hc
  | begun committed_eq | inserted _ _ committed_eq | created _ _ committed_eq
  | closed _ committed_eq | idle _ committed_eq => exact committed_eq

end Session

end ContentStore

import ContentStore.Store.Transaction

/-!
# Rows that a transaction adds

A transaction only adds rows to those that are committed. What it sees at any time is found again, under
the same id, in the tables that a commit leaves, as long as it has staged no id twice.
-/

namespace ContentStore

namespace Tables

variable {kind : Kind}

theorem append_assoc (a b c : Tables) : a ++ b ++ c = a ++ (b ++ c) := by
  ext kind : 1
  simp

@[simp] theorem rows_empty (kind : Kind) : ({} : Tables).rows kind = [] := by
  cases kind <;> rfl

@[simp] theorem append_empty (a : Tables) : a ++ ({} : Tables) = a := by
  ext kind : 1
  simp

@[simp] theorem empty_append (a : Tables) : ({} : Tables) ++ a = a := by
  ext kind : 1
  simp

def single (e : Entity kind) : Tables :=
  ({} : Tables).push e

@[simp] theorem rows_single_self (e : Entity kind) : (single e).rows kind = [e] := by
  simp [single]

theorem rows_single_of_ne {other : Kind} (h : other ≠ kind) (e : Entity kind) :
    (single e).rows other = [] := by
  simp [single, rows_push_of_ne _ h]

theorem push_eq_append (t : Tables) (e : Entity kind) : t.push e = t ++ single e := by
  ext other : 1
  by_cases h : other = kind
  · subst h
    simp
  · simp [rows_push_of_ne _ h, rows_single_of_ne h]

/-- Files stand apart from the rows of the other kinds. -/
theorem mk_eq_append_files (categories : List CollectionCategory) (collections : List Collection)
    (apps : List App) (documents : List Document) (files : List StoredFile) :
    Tables.mk categories collections apps documents files =
      Tables.mk categories collections apps documents [] ++ { files } := by
  ext kind : 1
  rw [rows_append]
  cases kind <;> simp [rows]

/-- Files and a document, the rows that a new document brings with it. -/
theorem files_append_single (files : List StoredFile) (document : Document) :
    ({ files } : Tables) ++ @single .document document = { documents := [document], files } := by
  ext kind : 1
  rw [rows_append]
  cases kind <;> simp [rows, single, push]

@[simp] theorem contains_append (a b : Tables) (id : RealId kind) :
    (a ++ b).contains kind id = (a.contains kind id || b.contains kind id) := by
  simp [contains]

theorem contains_of_get? {t : Tables} {id : RealId kind} {e : Entity kind}
    (h : t.get? kind id = some e) : t.contains kind id = true := by
  simp [contains, h]

theorem get?_eq_none_of_contains {t : Tables} {id : RealId kind} (h : t.contains kind id = false) :
    t.get? kind id = none := by
  simpa [contains] using h

/-- The rows that a write with a check of its id has staged: their ids are not committed, and each stands
once. -/
def Clear (committed staged : Tables) (kind : Kind) : Prop :=
  (∀ e ∈ staged.rows kind, committed.contains kind e.id = false) ∧
    ((staged.rows kind).map Entity.id).Nodup

theorem clear_empty (committed : Tables) (kind : Kind) : Clear committed {} kind := by
  simp [Clear]

/-- A row that may be inserted keeps the staged rows clear. -/
theorem Clear.push {committed staged : Tables} {e : Entity kind} (h : Clear committed staged kind)
    (hc : committed.contains kind e.id = false) (hs : staged.contains kind e.id = false) :
    Clear committed (staged.push e) kind := by
  obtain ⟨hfresh, hnodup⟩ := h
  rw [Clear, rows_push_self]
  constructor
  · intro row hrow
    rcases List.mem_append.1 hrow with hrow | hrow
    · exact hfresh row hrow
    · rw [List.mem_singleton.1 hrow]
      exact hc
  · rw [List.map_append, List.nodup_append]
    refine ⟨hnodup, by simp, ?_⟩
    intro id hid other hother
    obtain ⟨row, hrow, rfl⟩ := List.mem_map.1 hid
    rw [List.map_singleton, List.mem_singleton] at hother
    rintro rfl
    have : staged.contains kind e.id = true := contains_iff.2 ⟨row, hrow, hother⟩
    rw [this] at hs
    cases hs

theorem Clear.push_of_ne {committed staged : Tables} {other : Kind} (h : Clear committed staged kind)
    (hne : kind ≠ other) (e : Entity other) : Clear committed (staged.push e) kind := by
  rw [Clear, rows_push_of_ne _ hne]
  exact h

/-- The one staged row with an id is the row that the commit leaves under it. -/
theorem get?_of_clear {committed staged : Tables} (h : Clear committed staged kind)
    {e : Entity kind} (he : e ∈ staged.rows kind) :
    (committed ++ staged).get? kind e.id = some e := by
  obtain ⟨hfresh, hnodup⟩ := h
  rw [get?_append, get?_eq_none_of_contains (hfresh e he), Option.none_or]
  exact find?_of_nodup hnodup he
where
  find?_of_nodup {rows : List (Entity kind)} (hn : (rows.map Entity.id).Nodup) {e : Entity kind}
      (he : e ∈ rows) : rows.find? (fun row => row.id = e.id) = some e := by
    induction rows with
    | nil => cases he
    | cons row rest ih =>
        obtain ⟨hrow, hrest⟩ := List.nodup_cons.1 hn
        rcases List.mem_cons.1 he with rfl | he
        · simp
        · have hne : row.id ≠ e.id := fun heq => hrow (heq ▸ List.mem_map_of_mem he)
          simp [hne, ih hrest he]

theorem eq_append_of_commit {committed staged after : Tables}
    (h : committed.commit staged = .ok after) : after = committed ++ staged := by
  unfold commit at h
  split at h
  · cases h
  · cases h
    rfl

end Tables

namespace Work

variable {kind : Kind} {committed : Tables}

/-- What a transaction sees under an id stays under it in all tables that a commit can leave. -/
theorem get?_eq_some_final {work : Work} {more : Tables}
    (h : Tables.Clear committed (work.staged ++ more) kind) {id : RealId kind} {e : Entity kind}
    (he : work.get? committed kind id = some e) :
    (committed ++ (work.staged ++ more)).get? kind id = some e := by
  cases hs : work.staged.get? kind id with
  | none =>
      rw [Work.get?, hs, Option.none_or] at he
      rw [Tables.get?_append, he, Option.some_or]
  | some found =>
      rw [Work.get?, hs, Option.some_or, Option.some.injEq] at he
      subst he
      have hmem := Tables.mem_rows_of_get? hs
      have hid := Tables.id_of_get? hs
      rw [← hid]
      exact Tables.get?_of_clear h (by rw [Tables.rows_append]; exact List.mem_append_left _ hmem)

/-- Where no staged id is committed, it does not matter which rows a transaction looks through first. -/
theorem get?_eq_of_clear {work : Work} (h : Tables.Clear committed work.staged kind) (id : RealId kind) :
    work.get? committed kind id = (committed ++ work.staged).get? kind id := by
  cases hs : work.get? committed kind id with
  | some e =>
      have hfinal := @get?_eq_some_final _ _ _ {} (by rw [Tables.append_empty]; exact h) _ _ hs
      rw [← hfinal, Tables.append_empty]
  | none =>
      obtain ⟨hstaged, hcommitted⟩ := Option.or_eq_none_iff.1 hs
      rw [Tables.get?_append, hstaged, hcommitted, Option.none_or]

theorem isSome_get? (work : Work) (committed : Tables) (id : RealId kind) :
    (work.get? committed kind id).isSome = (committed ++ work.staged).contains kind id := by
  rw [Work.get?, Option.isSome_or, Tables.contains_append, Bool.or_comm]
  rfl

theorem contains_final {work : Work} {more : Tables} {id : RealId kind}
    (h : (work.get? committed kind id).isSome = true) :
    (committed ++ (work.staged ++ more)).contains kind id = true := by
  simp only [Work.get?, Option.isSome_or, Bool.or_eq_true] at h
  rw [Tables.contains_append, Tables.contains_append]
  rcases h with h | h <;> simp [Tables.contains, h]

end Work

end ContentStore

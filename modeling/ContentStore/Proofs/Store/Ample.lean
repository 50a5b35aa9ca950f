import ContentStore.Proofs.Store.Session
import Mathlib.Data.List.Nodup

/-!
# Writes that cannot fail

A supply of distinct suffixes gives each id once. A transaction without a limit on its writes that uses
the given ids, none of them committed and each for one row, is never refused a write or the commit. With
a limit, such writes are let through up to it.
-/

namespace ContentStore

theorem IdSuffix.toId_injective (kind : Kind) :
    Function.Injective fun suffix : IdSuffix => suffix.toId kind := by
  intro a b h
  have htext := congrArg (fun id : RealId kind => id.text.toList) h
  cases a
  cases b
  simpa [IdSuffix.toId] using htext

namespace Supply

/-- No suffix comes twice, and no row has an id with a suffix that is still to come. -/
structure NewFor (supply : Supply) (committed : Tables) : Prop where
  distinct : Function.Injective supply.suffix
  free : ∀ kind n, supply.used ≤ n → committed.contains kind ((supply.suffix n).toId kind) = false

def next (supply : Supply) (kind : Kind) (count : Nat) : List (RealId kind) :=
  (List.range' supply.used count).map fun n => (supply.suffix n).toId kind

def skip (supply : Supply) (count : Nat) : Supply :=
  { supply with used := supply.used + count }

/-- An id that was given between two states of a supply. -/
def Gave (origin now : Supply) (kind : Kind) (id : RealId kind) : Prop :=
  ∃ n, origin.used ≤ n ∧ n < now.used ∧ id = (origin.suffix n).toId kind

variable {supply origin now : Supply} {kind : Kind} {id : RealId kind} {count : Nat}

theorem length_next (supply : Supply) (kind : Kind) (count : Nat) :
    (supply.next kind count).length = count := by
  simp [next]

theorem next_succ (supply : Supply) (kind : Kind) (count : Nat) :
    supply.next kind (count + 1) =
      (supply.suffix supply.used).toId kind :: (supply.skip 1).next kind count :=
  rfl

theorem skip_skip (supply : Supply) (first second : Nat) :
    (supply.skip first).skip second = supply.skip (first + second) := by
  simp [skip, Nat.add_assoc]

theorem skip_comm (supply : Supply) (first second : Nat) :
    (supply.skip first).skip second = (supply.skip second).skip first := by
  rw [skip_skip, skip_skip, Nat.add_comm]

theorem nodup_next (h : Function.Injective supply.suffix) (kind : Kind) (count : Nat) :
    (supply.next kind count).Nodup :=
  List.Nodup.map ((IdSuffix.toId_injective kind).comp h) (List.nodup_range' 1)

theorem mem_next_iff : id ∈ supply.next kind count ↔ Gave supply (supply.skip count) kind id := by
  unfold next Gave
  rw [List.mem_map]
  apply exists_congr
  intro n
  rw [List.mem_range'_1, and_assoc, eq_comm (a := id)]
  rfl

theorem Gave.mono {later : Supply} (h : Gave origin now kind id) (hle : now.used ≤ later.used) :
    Gave origin later kind id := by
  obtain ⟨n, hfirst, hlt, hid⟩ := h
  exact ⟨n, hfirst, by omega, hid⟩

theorem Gave.of_later {middle : Supply} (h : Gave middle now kind id)
    (hsuffix : middle.suffix = origin.suffix) (hle : origin.used ≤ middle.used) :
    Gave origin now kind id := by
  obtain ⟨n, hfirst, hlt, hid⟩ := h
  exact ⟨n, by omega, hlt, hsuffix ▸ hid⟩

/-- An id is given once. -/
theorem Gave.ne {middle : Supply} {other : RealId kind} (h : Gave origin middle kind id)
    (hother : Gave middle now kind other) (hsuffix : middle.suffix = origin.suffix)
    (hinjective : Function.Injective origin.suffix) : id ≠ other := by
  obtain ⟨n, -, hlt, hid⟩ := h
  obtain ⟨m, hle, -, hotherId⟩ := hother
  intro heq
  rw [hid, hotherId, hsuffix] at heq
  have hsame : n = m := hinjective (IdSuffix.toId_injective kind heq)
  omega

/-- Before anything is stored every id is new. -/
theorem newFor_empty (h : Function.Injective supply.suffix) : supply.NewFor {} where
  distinct := h
  free kind _ _ := by cases kind <;> rfl

theorem NewFor.not_contains {committed : Tables} (hn : origin.NewFor committed)
    (h : Gave origin now kind id) : committed.contains kind id = false := by
  obtain ⟨n, hfirst, -, rfl⟩ := h
  exact hn.free kind n hfirst

end Supply

namespace Budget

/-- The budget lets that many writes through. -/
def Allows (budget : Budget) (writes : Nat) : Prop :=
  ∀ left, budget = some left → writes ≤ left

def less (budget : Budget) (writes : Nat) : Budget :=
  budget.map (· - writes)

variable {budget : Budget} {writes : Nat}

theorem Allows.mono (h : budget.Allows writes) {fewer : Nat} (hle : fewer ≤ writes) :
    budget.Allows fewer :=
  fun left hleft => Nat.le_trans hle (h left hleft)

theorem Allows.spend? (h : budget.Allows 1) : budget.spend? = some (budget.less 1) := by
  cases budget with
  | none => rfl
  | some left =>
      cases left with
      | zero => exact absurd (h 0 rfl) (by decide)
      | succ left => rfl

theorem less_less (budget : Budget) (first second : Nat) :
    (budget.less first).less second = budget.less (first + second) := by
  cases budget with
  | none => rfl
  | some left => exact congrArg some (Nat.sub_sub left first second)

theorem Allows.less {first second : Nat} (h : budget.Allows (first + second)) :
    (budget.less first).Allows second := by
  intro left hleft
  obtain ⟨all, hall, rfl⟩ := Option.map_eq_some_iff.1 hleft
  exact Nat.le_sub_of_add_le' (h all hall)

end Budget

namespace Work

/-- A transaction without a limit on its writes whose rows have ids that the supply has given since it
began, each id standing once. -/
structure Ample (origin : Supply) (work : Work) : Prop where
  unlimited : work.budget = none
  suffix_eq : work.supply.suffix = origin.suffix
  used_le : origin.used ≤ work.supply.used
  given : ∀ kind, ∀ e ∈ work.staged.rows kind, Supply.Gave origin work.supply kind e.id
  distinct : work.staged.DistinctIds

variable {origin : Supply} {committed : Tables} {work : Work} {kind : Kind}

theorem ample_start (supply : Supply) : Ample supply (Work.start none supply) where
  unlimited := rfl
  suffix_eq := rfl
  used_le := Nat.le_refl _
  given kind e he := by simp [start] at he
  distinct := Tables.distinctIds_empty

def skip (work : Work) (count : Nat) : Work :=
  { work with supply := work.supply.skip count }

theorem Ample.skip (h : work.Ample origin) (count : Nat) : (work.skip count).Ample origin where
  unlimited := h.unlimited
  suffix_eq := h.suffix_eq
  used_le := Nat.le_trans h.used_le (Nat.le_add_right _ _)
  given kind e he := (h.given kind e he).mono (Nat.le_add_right _ _)
  distinct := h.distinct

theorem skip_skip (work : Work) (first second : Nat) :
    (work.skip first).skip second = work.skip (first + second) := by
  simp [Work.skip, Supply.skip_skip]

/-- The next ids are given when they have been taken, and no row has one of them yet. -/
theorem Ample.gave_next (h : work.Ample origin) {count : Nat} {id : RealId kind}
    (hid : id ∈ work.supply.next kind count) :
    Supply.Gave origin (work.supply.skip count) kind id :=
  (Supply.mem_next_iff.1 hid).of_later h.suffix_eq h.used_le

theorem Ample.not_contains_next (h : work.Ample origin) (hn : origin.NewFor committed) {count : Nat}
    {id : RealId kind} (hid : id ∈ work.supply.next kind count) :
    work.staged.contains kind id = false := by
  rw [Bool.eq_false_iff]
  intro hcontains
  obtain ⟨e, he, heq⟩ := Tables.contains_iff.1 hcontains
  exact (h.given kind e he).ne (Supply.mem_next_iff.1 hid) h.suffix_eq hn.distinct heq

def push (work : Work) (e : Entity kind) : Work :=
  { work with staged := work.staged.push e }

theorem Ample.push (h : work.Ample origin) {e : Entity kind}
    (hgave : Supply.Gave origin work.supply kind e.id)
    (hfree : work.staged.contains kind e.id = false) : (work.push e).Ample origin where
  unlimited := h.unlimited
  suffix_eq := h.suffix_eq
  used_le := h.used_le
  given other row hrow := by
    by_cases ho : other = kind
    · subst ho
      have hrow : row ∈ work.staged.rows other ++ [e] := by
        rw [← Tables.rows_push_self]
        exact hrow
      rcases List.mem_append.1 hrow with hrow | hrow
      · exact h.given other row hrow
      · rw [List.mem_singleton.1 hrow]
        exact hgave
    · rw [Work.push, Tables.rows_push_of_ne _ ho] at hrow
      exact h.given other row hrow
  distinct := h.distinct.push hfree

/-- Without a limit on writes a row is refused only for its id. -/
theorem insert_eq_ok_iff (h : work.budget = none) {e : Entity kind} {after : Work} :
    work.insert committed e = (.ok (), after) ↔
      (committed ++ work.staged).contains kind e.id = false ∧ after = work.push e := by
  obtain ⟨staged, budget, supply⟩ := work
  cases h
  rw [Tables.contains_append]
  cases hfree : committed.contains kind e.id || staged.contains kind e.id <;>
    simp [Work.insert, Budget.spend?, hfree, Work.push, eq_comm]

/-- Within the budget a row that has an id of its own is not refused. -/
theorem insert_of_allows {e : Entity kind} (h : work.budget.Allows 1)
    (hfree : (committed ++ work.staged).contains kind e.id = false) :
    work.insert committed e = (.ok (), { work.push e with budget := work.budget.less 1 }) := by
  rw [Tables.contains_append] at hfree
  simp [Work.insert, h.spend?, hfree, Work.push]

/-- A row under a given id that no other row has is not refused. -/
theorem Ample.insert (h : work.Ample origin) (hn : origin.NewFor committed) {e : Entity kind}
    (hgave : Supply.Gave origin work.supply kind e.id)
    (hfree : work.staged.contains kind e.id = false) :
    work.insert committed e = (.ok (), work.push e) := by
  rw [insert_eq_ok_iff h.unlimited, Tables.contains_append, hn.not_contains hgave, hfree]
  exact ⟨rfl, rfl⟩

def category (work : Work) (name icon : String) (parentId : Option CollectionCategoryId) :
    CollectionCategory where
  id := (work.supply.suffix work.supply.used).toId .collectionCategory
  name := name
  icon := icon
  parentId := parentId
  createdAt := work.supply.now

theorem createCategory_of_unlimited (h : work.budget = none) (name icon : String)
    (parentId : Option CollectionCategoryId) :
    work.createCategory name icon parentId = (.ok (work.category name icon parentId),
      @Work.push .collectionCategory (work.skip 1) (work.category name icon parentId)) := by
  obtain ⟨staged, budget, supply⟩ := work
  cases h
  rfl

theorem Ample.push_category (h : work.Ample origin) (hn : origin.NewFor committed)
    (name icon : String) (parentId : Option CollectionCategoryId) :
    (@Work.push .collectionCategory (work.skip 1) (work.category name icon parentId)).Ample origin := by
  have hid : (work.category name icon parentId).id ∈ work.supply.next .collectionCategory 1 := by
    simp [Supply.next_succ, category]
  exact (h.skip 1).push (h.gave_next hid) (h.not_contains_next hn hid)

theorem Ample.commit (h : work.Ample origin) (hn : origin.NewFor committed) :
    committed.commit work.staged = .ok (committed ++ work.staged) := by
  rw [Tables.commit_eq_ok_iff]
  exact ⟨fun kind e he => hn.not_contains (h.given kind e he), rfl⟩

/-- A row of the transaction is found under its id. -/
theorem Ample.get? (h : work.Ample origin) {e : Entity kind} (he : e ∈ work.staged.rows kind) :
    work.get? committed kind e.id = some e := by
  rw [Work.get?, h.distinct.get?_eq_some_iff.2 ⟨he, rfl⟩, Option.some_or]

/-! ### The rows of a transaction -/

/-- A transaction that has staged the given rows and some files. The ids that it holds for rows to come
were given before the supply was where it is said to be. -/
structure Holds (origin now : Supply) (rows : Tables) (work : Work) : Prop where
  ample : work.Ample origin
  later : now.used ≤ work.supply.used
  staged_eq : ∃ files, work.staged = { rows with files }

namespace Holds

variable {now : Supply} {rows : Tables}

theorem rows_eq (h : work.Holds origin now rows) (hk : kind ≠ .file) :
    work.staged.rows kind = rows.rows kind := by
  obtain ⟨files, hstaged⟩ := h.staged_eq
  rw [hstaged]
  cases kind <;> first | rfl | exact absurd rfl hk

theorem get? (h : work.Holds origin now rows) (hk : kind ≠ .file) {e : Entity kind}
    (he : e ∈ rows.rows kind) : work.get? committed kind e.id = some e := by
  rw [← h.rows_eq hk] at he
  exact h.ample.get? he

theorem skip (h : work.Holds origin now rows) (count : Nat) :
    (work.skip count).Holds origin now rows where
  ample := h.ample.skip count
  later := Nat.le_trans h.later (Nat.le_add_right _ _)
  staged_eq := h.staged_eq

theorem push_staged (h : work.Holds origin now rows) (hk : kind ≠ .file) (e : Entity kind) :
    ∃ files, (work.push e).staged = { rows.push e with files } := by
  obtain ⟨files, hstaged⟩ := h.staged_eq
  refine ⟨files, ?_⟩
  rw [Work.push, hstaged]
  cases kind <;> first | rfl | exact absurd rfl hk

theorem not_contains (h : work.Holds origin now rows) (hk : kind ≠ .file) {id : RealId kind}
    (hfree : id ∉ (rows.rows kind).map Entity.id) : work.staged.contains kind id = false := by
  rw [Bool.eq_false_iff]
  intro hcontains
  obtain ⟨e, he, rfl⟩ := Tables.contains_iff.1 hcontains
  rw [h.rows_eq hk] at he
  exact hfree (List.mem_map_of_mem he)

/-- A row under an id that was held for it is inserted. -/
theorem insert (h : work.Holds origin now rows) (hn : origin.NewFor committed) (hk : kind ≠ .file)
    {e : Entity kind} (hgave : Supply.Gave origin now kind e.id)
    (hfree : e.id ∉ (rows.rows kind).map Entity.id) :
    work.insert committed e = (.ok (), work.push e) ∧ (work.push e).Holds origin now (rows.push e) := by
  have hgave := hgave.mono h.later
  have hfree := h.not_contains hk hfree
  exact ⟨h.ample.insert hn hgave hfree, h.ample.push hgave hfree, h.later, h.push_staged hk e⟩

theorem insert_file (h : work.Holds origin now rows) (hn : origin.NewFor committed) {file : StoredFile}
    (hgave : Supply.Gave origin work.supply .file file.id)
    (hfree : work.staged.contains .file file.id = false) :
    @Work.insert work committed .file file = (.ok (), @Work.push .file work file) ∧
      (@Work.push .file work file).Holds origin now rows := by
  refine ⟨h.ample.insert hn hgave hfree, h.ample.push hgave hfree, h.later, ?_⟩
  obtain ⟨files, hstaged⟩ := h.staged_eq
  exact ⟨files ++ [file], by rw [Work.push, hstaged]; rfl⟩

theorem createCategory (h : work.Holds origin now rows) (hn : origin.NewFor committed)
    (name icon : String) (parentId : Option CollectionCategoryId) :
    ∃ category after, work.createCategory name icon parentId = (.ok category, after) ∧
      after.Holds origin now (@Tables.push rows .collectionCategory category) := by
  refine ⟨_, _, createCategory_of_unlimited h.ample.unlimited name icon parentId,
    h.ample.push_category hn name icon parentId, Nat.le_trans h.later (Nat.le_add_right _ _), ?_⟩
  exact (h.skip 1).push_staged (by decide) _

end Holds

end Work

namespace Supply

/-- Ids that were given for as many entries of one kind, each once. -/
structure Issued (origin now : Supply) {kind : Kind} (count : Nat) (ids : List (RealId kind)) :
    Prop where
  length_eq : ids.length = count
  nodup : ids.Nodup
  gave : ∀ id ∈ ids, Gave origin now kind id

theorem Issued.mono {origin now later : Supply} {kind : Kind} {count : Nat} {ids : List (RealId kind)}
    (h : Issued origin now count ids) (hle : now.used ≤ later.used) : Issued origin later count ids where
  length_eq := h.length_eq
  nodup := h.nodup
  gave id hid := (h.gave id hid).mono hle

end Supply

theorem Work.Ample.issued_next {origin : Supply} {work : Work} (h : work.Ample origin)
    (hinjective : Function.Injective origin.suffix) (kind : Kind) (count : Nat) :
    origin.Issued (work.supply.skip count) count (work.supply.next kind count) where
  length_eq := work.supply.length_next kind count
  nodup := Supply.nodup_next (h.suffix_eq ▸ hinjective) kind count
  gave _ hid := h.gave_next hid

end ContentStore

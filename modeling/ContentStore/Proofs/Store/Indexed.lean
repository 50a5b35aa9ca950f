import ContentStore.Proofs.Store.Session
import ContentStore.Proofs.Values
import ContentStore.Store.Indexed

/-!
# Indexed tables hold their rows

In an aligned table no id stands twice, and the index has for each row exactly the row's id with the place
where the row stands. Looking up an id then finds the row that has it, and rows that are moved to another
table keep their order and their ids, in whatever order the index lists its entries.
-/

namespace ContentStore

/-! ## One table -/

namespace Table

variable {kind : Kind} {table other : Table kind} {rows : List (Entity kind)} {id : RealId kind}

def places (rows : List (Entity kind)) : List (RealId kind × Nat) :=
  rows.zipIdx.map fun row => (row.1.id, row.2)

theorem map_fst_places (rows : List (Entity kind)) : (places rows).map Prod.fst = rows.map Entity.id := by
  have hfst : Prod.fst ∘ (fun row : Entity kind × Nat => (row.1.id, row.2)) = Entity.id ∘ Prod.fst := rfl
  rw [places, List.map_map, hfst, ← List.map_map, List.zipIdx_map_fst]

theorem mem_places {place : Nat} :
    (id, place) ∈ places rows ↔ ∃ row, rows[place]? = some row ∧ row.id = id := by
  rw [places, List.mem_map]
  constructor
  · rintro ⟨⟨row, at_⟩, hmem, he⟩
    cases he
    exact ⟨row, List.mk_mem_zipIdx_iff_getElem?.1 hmem, rfl⟩
  · rintro ⟨row, hrow, rfl⟩
    exact ⟨(row, place), List.mk_mem_zipIdx_iff_getElem?.2 hrow, rfl⟩

theorem places_append_singleton (rows : List (Entity kind)) (row : Entity kind) :
    places (rows ++ [row]) = places rows ++ [(row.id, rows.length)] := by
  simp [places, List.zipIdx_append]

/-- No id stands twice, and the index has the place of each row under the row's id and nothing else. -/
structure Aligned (table : Table kind) : Prop where
  distinct : (table.rows.map Entity.id).Nodup
  index_perm : table.index.Perm (places table.rows)

theorem aligned_empty : ({} : Table kind).Aligned := ⟨List.nodup_nil, .refl _⟩

theorem Aligned.map_fst_index_perm (h : table.Aligned) :
    (table.index.map Prod.fst).Perm (table.rows.map Entity.id) := by
  rw [← map_fst_places]
  exact h.index_perm.map Prod.fst

theorem Aligned.lookup_iff (h : table.Aligned) {place : Nat} :
    table.index.lookup id = some place ↔ ∃ row, table.rows[place]? = some row ∧ row.id = id := by
  have hn : (table.index.map Prod.fst).Nodup := h.map_fst_index_perm.nodup_iff.2 h.distinct
  rw [Entries.lookup_eq_some_iff_mem hn, h.index_perm.mem_iff, mem_places]

/-- The row that is found under an id is the one row that has it. -/
theorem Aligned.get?_eq_some_iff (h : table.Aligned) {row : Entity kind} :
    table.get? id = some row ↔ row ∈ table.rows ∧ row.id = id := by
  rw [get?, Option.bind_eq_some_iff]
  constructor
  · rintro ⟨place, hplace, hrow⟩
    obtain ⟨found, hfound, hid⟩ := h.lookup_iff.1 hplace
    cases hfound.symm.trans hrow
    exact ⟨List.mem_of_getElem? hrow, hid⟩
  · rintro ⟨hmem, hid⟩
    obtain ⟨place, hplace⟩ := List.mem_iff_getElem?.1 hmem
    exact ⟨place, h.lookup_iff.2 ⟨row, hplace, hid⟩, hplace⟩

theorem Aligned.contains_iff (h : table.Aligned) :
    table.contains id = true ↔ ∃ row ∈ table.rows, row.id = id := by
  rw [contains, Option.isSome_iff_exists]
  constructor
  · rintro ⟨place, hplace⟩
    obtain ⟨row, hrow, hid⟩ := h.lookup_iff.1 hplace
    exact ⟨row, List.mem_of_getElem? hrow, hid⟩
  · rintro ⟨row, hmem, hid⟩
    obtain ⟨place, hplace⟩ := List.mem_iff_getElem?.1 hmem
    exact ⟨place, h.lookup_iff.2 ⟨row, hplace, hid⟩⟩

/-- A row with a new id keeps a table aligned. -/
theorem Aligned.push (h : table.Aligned) {row : Entity kind} (hnew : row.id ∉ table.rows.map Entity.id) :
    (table.push row.id row).Aligned where
  distinct := by
    rw [rows_push, List.map_append, List.map_singleton]
    exact (List.perm_append_singleton _ _).nodup_iff.2 (List.nodup_cons.2 ⟨hnew, h.distinct⟩)
  index_perm := by
    have hkept : (table.index.filter fun entry => entry.1 != row.id) = table.index := by
      rw [List.filter_eq_self]
      intro entry hentry
      have hmem : entry.1 ∈ table.rows.map Entity.id :=
        h.map_fst_index_perm.mem_iff.1 (List.mem_map_of_mem hentry)
      have hne : entry.1 ≠ row.id := fun he => hnew (he ▸ hmem)
      simpa using hne
    rw [Table.push, hkept, places_append_singleton]
    exact (h.index_perm.cons _).trans (List.perm_append_singleton _ _).symm

theorem pairwise_places (rows : List (Entity kind)) :
    (places rows).Pairwise fun a b => a.2 < b.2 := by
  rw [places, List.pairwise_map, ← List.pairwise_map (f := Prod.snd), List.zipIdx_map_snd]
  exact List.pairwise_lt_range'

/-- In whatever order the index is listed, sorting by place brings it into the order of the rows. -/
theorem Aligned.mergeSort_eq_places (h : table.Aligned) (listing : Listing) :
    (listing.list table.index).mergeSort (fun a b => a.2 ≤ b.2) = places table.rows := by
  have hperm : ((listing.list table.index).mergeSort fun a b => a.2 ≤ b.2).Perm (places table.rows) :=
    (List.mergeSort_perm _ _).trans ((listing.perm table.index).trans h.index_perm)
  have hsorted : ((listing.list table.index).mergeSort fun a b => a.2 ≤ b.2).Pairwise
      fun a b => decide (a.2 ≤ b.2) = true := by
    apply List.pairwise_mergeSort
    · intro a b c hab hbc
      simp only [decide_eq_true_eq] at hab hbc ⊢
      omega
    · intro a b
      simp only [Bool.or_eq_true, decide_eq_true_eq]
      omega
  have hplaces : (places table.rows).Pairwise fun a b => decide (a.2 ≤ b.2) = true :=
    (pairwise_places table.rows).imp fun hlt => by simpa using Nat.le_of_lt hlt
  refine hperm.eq_of_pairwise ?_ hsorted hplaces
  rintro ⟨id, place⟩ ⟨other, there⟩ ha hb hab hba
  simp only [decide_eq_true_eq] at hab hba
  obtain rfl : place = there := by omega
  obtain ⟨row, hrow, rfl⟩ := mem_places.1 (hperm.mem_iff.1 ha)
  obtain ⟨found, hfound, rfl⟩ := mem_places.1 hb
  cases hrow.symm.trans hfound
  rfl

theorem places_zip (rows : List (Entity kind)) :
    (places rows).zip rows = rows.zipIdx.map fun row => ((row.1.id, row.2), row.1) := by
  have hrows : rows = rows.zipIdx.map Prod.fst := by rw [List.zipIdx_map_fst]
  calc (places rows).zip rows
      = (places rows).zip (rows.zipIdx.map Prod.fst) := by rw [← hrows]
    _ = rows.zipIdx.map fun row => ((row.1.id, row.2), row.1) := List.zip_map'

/-- Absorbing a table adds its rows one after another, each under its own id. -/
theorem Aligned.absorb_eq_foldl (h : other.Aligned) (listing : Listing) (table : Table kind) :
    table.absorb listing other =
      other.rows.foldl (fun table row => table.push row.id row) table := by
  rw [absorb, h.mergeSort_eq_places, places_zip, List.foldl_map]
  conv_rhs => rw [← List.zipIdx_map_fst 0 other.rows, List.foldl_map]

theorem rows_foldl_push (rows : List (Entity kind)) (table : Table kind) :
    (rows.foldl (fun table row => table.push row.id row) table).rows = table.rows ++ rows := by
  induction rows generalizing table with
  | nil => simp
  | cons row rest ih => simp [ih]

theorem Aligned.foldl_push (h : table.Aligned) (hn : (rows.map Entity.id).Nodup)
    (hnew : ∀ row ∈ rows, row.id ∉ table.rows.map Entity.id) :
    (rows.foldl (fun table row => table.push row.id row) table).Aligned := by
  induction rows generalizing table with
  | nil => exact h
  | cons row rest ih =>
      obtain ⟨hrow, hrest⟩ := List.nodup_cons.1 hn
      obtain ⟨hfirst, hothers⟩ := List.forall_mem_cons.1 hnew
      refine ih (h.push hfirst) hrest fun later hlater hmem => ?_
      rw [rows_push, List.map_append, List.mem_append, List.map_singleton, List.mem_singleton] at hmem
      rcases hmem with hmem | he
      · exact hothers later hlater hmem
      · exact hrow (he ▸ List.mem_map_of_mem hlater)

/-- Absorbing puts the rows of the other table behind, in their order, however its index is listed. -/
theorem Aligned.rows_absorb (h : other.Aligned) (listing : Listing) (table : Table kind) :
    (table.absorb listing other).rows = table.rows ++ other.rows := by
  rw [h.absorb_eq_foldl, rows_foldl_push]

/-- A table that absorbs one without an id of its own stays aligned: no row is lost or mislabelled. -/
theorem Aligned.absorb (h : table.Aligned) (hother : other.Aligned)
    (hnew : ∀ row ∈ other.rows, row.id ∉ table.rows.map Entity.id) (listing : Listing) :
    (table.absorb listing other).Aligned := by
  rw [hother.absorb_eq_foldl]
  exact h.foldl_push hother.distinct hnew

end Table

/-! ## The tables of all kinds -/

namespace IndexedTables

variable {t staged : IndexedTables} {kind : Kind}

def toTables (t : IndexedTables) : Tables where
  categories := t.categories.rows
  collections := t.collections.rows
  apps := t.apps.rows
  documents := t.documents.rows
  files := t.files.rows

@[simp] theorem rows_toTables (t : IndexedTables) (kind : Kind) :
    t.toTables.rows kind = (t.table kind).rows := by
  cases kind <;> rfl

@[simp] theorem table_push_self (t : IndexedTables) (id : RealId kind) (e : Entity kind) :
    (t.push id e).table kind = (t.table kind).push id e := by
  cases kind <;> rfl

theorem table_push_of_ne (t : IndexedTables) {other : Kind} (h : other ≠ kind) (id : RealId kind)
    (e : Entity kind) : (t.push id e).table other = t.table other := by
  cases kind <;> cases other <;> first | rfl | exact absurd rfl h

@[simp] theorem toTables_push (t : IndexedTables) (id : RealId kind) (e : Entity kind) :
    (t.push id e).toTables = t.toTables.push e := by
  cases kind <;> rfl

@[simp] theorem table_absorb (listing : Listing) (t staged : IndexedTables) (kind : Kind) :
    (t.absorb listing staged).table kind = (t.table kind).absorb listing (staged.table kind) := by
  cases kind <;> rfl

/-- Every table is aligned. -/
def Aligned (t : IndexedTables) : Prop :=
  ∀ kind, (t.table kind).Aligned

theorem aligned_empty : ({} : IndexedTables).Aligned := by
  intro kind
  cases kind <;> exact Table.aligned_empty

theorem Aligned.distinctIds (h : t.Aligned) : t.toTables.DistinctIds := by
  intro kind
  rw [rows_toTables]
  exact (h kind).distinct

theorem Aligned.get?_eq (h : t.Aligned) (kind : Kind) (id : RealId kind) :
    (t.table kind).get? id = t.toTables.get? kind id := by
  ext row
  rw [(h kind).get?_eq_some_iff, h.distinctIds.get?_eq_some_iff, rows_toTables]

theorem Aligned.contains_eq (h : t.Aligned) (kind : Kind) (id : RealId kind) :
    (t.table kind).contains id = t.toTables.contains kind id := by
  rw [Bool.eq_iff_iff, (h kind).contains_iff, Tables.contains_iff, rows_toTables]

theorem not_mem_of_contains {id : RealId kind} (h : t.toTables.contains kind id = false) :
    id ∉ (t.table kind).rows.map Entity.id := by
  intro hmem
  obtain ⟨row, hrow, hid⟩ := List.mem_map.1 hmem
  have hcontains : t.toTables.contains kind id = true :=
    Tables.contains_iff.2 ⟨row, by rwa [rows_toTables], hid⟩
  rw [h] at hcontains
  cases hcontains

theorem Aligned.push (h : t.Aligned) {e : Entity kind} (hfree : t.toTables.contains kind e.id = false) :
    (t.push e.id e).Aligned := by
  intro other
  by_cases ho : other = kind
  · subst ho
    rw [table_push_self]
    exact (h other).push (not_mem_of_contains hfree)
  · rw [table_push_of_ne t ho]
    exact h other

/-- Staged tables without an id that is taken are moved over whole, and every row keeps its id. -/
theorem Aligned.absorb (h : t.Aligned) (hstaged : staged.Aligned)
    (hclear : ∀ kind, ∀ e ∈ staged.toTables.rows kind, t.toTables.contains kind e.id = false)
    (listing : Listing) :
    (t.absorb listing staged).Aligned ∧
      (t.absorb listing staged).toTables = t.toTables ++ staged.toTables := by
  constructor
  · intro kind
    rw [table_absorb]
    refine (h kind).absorb (hstaged kind) (fun row hrow => ?_) listing
    exact not_mem_of_contains (hclear kind row (by rwa [rows_toTables]))
  · ext kind : 1
    rw [rows_toTables, table_absorb, (hstaged kind).rows_absorb, Tables.rows_append, rows_toTables,
      rows_toTables]

/-- Ids that are looked at in turn are all free, or one of them that is taken is refused. -/
theorem forM_ensureAbsent_cases (table : Table kind) (ids : List (RealId kind)) :
    (ids.forM table.ensureAbsent = .ok () ∧ ∀ id ∈ ids, table.contains id = false) ∨
      ∃ id ∈ ids, table.contains id = true ∧
        ids.forM table.ensureAbsent = .error (.duplicateId kind id.text) := by
  induction ids with
  | nil => exact .inl ⟨rfl, List.forall_mem_nil _⟩
  | cons id rest ih =>
      cases hc : table.contains id with
      | true =>
          have hrefused : table.ensureAbsent id = .error (.duplicateId kind id.text) := if_pos hc
          refine .inr ⟨id, by simp, hc, ?_⟩
          rw [List.forM_eq_forM, List.forM_cons, hrefused]
          rfl
      | false =>
          have hfree : table.ensureAbsent id = .ok () := if_neg (by simp [hc])
          have hrest : (id :: rest).forM table.ensureAbsent = rest.forM table.ensureAbsent := by
            rw [List.forM_eq_forM, List.forM_cons, hfree]
            rfl
          rw [hrest]
          rcases ih with ⟨hok, hall⟩ | ⟨other, hmem, hother, herror⟩
          · exact .inl ⟨hok, List.forall_mem_cons.2 ⟨hc, hall⟩⟩
          · exact .inr ⟨other, List.mem_cons_of_mem _ hmem, hother, herror⟩

/-- Two refusals of staged rows are alike if they are for ids of the same kind that are taken. -/
def RefusedAlike (listed found : StoreError) : Prop :=
  ∃ kind id id', listed = .duplicateId kind id ∧ found = .duplicateId kind id'

/-- The check of one kind refuses exactly where the check of the rows does. The two may name different
ids, as the index lists its entries in an order of its own. -/
theorem Aligned.ensureDisjoint_alike (h : t.Aligned) (hstaged : staged.Aligned) (listing : Listing)
    (kind : Kind) :
    ((t.table kind).ensureDisjoint listing (staged.table kind) = .ok () ∧
      t.toTables.clash? staged.toTables kind = none) ∨
    ∃ listed found, (t.table kind).ensureDisjoint listing (staged.table kind) = .error listed ∧
      t.toTables.clash? staged.toTables kind = some found ∧ RefusedAlike listed found := by
  have hids : (listing.keys (staged.table kind).index).Perm ((staged.toTables.rows kind).map Entity.id) := by
    rw [rows_toTables]
    exact ((listing.perm _).map Prod.fst).trans (hstaged kind).map_fst_index_perm
  rcases forM_ensureAbsent_cases (t.table kind) (listing.keys (staged.table kind).index) with
    ⟨hok, hfree⟩ | ⟨id, hid, htaken, herror⟩
  · refine .inl ⟨hok, ?_⟩
    rw [Tables.clash?, Option.map_eq_none_iff, List.find?_eq_none]
    intro row hrow
    have hrowFree := hfree row.id (hids.mem_iff.2 (List.mem_map_of_mem hrow))
    rw [h.contains_eq] at hrowFree
    simp [hrowFree]
  · obtain ⟨row, hrow, rfl⟩ := List.mem_map.1 (hids.mem_iff.1 hid)
    rw [h.contains_eq] at htaken
    have hsome : ((staged.toTables.rows kind).find? fun e =>
        t.toTables.contains kind e.id).isSome = true := List.find?_isSome.2 ⟨row, hrow, htaken⟩
    obtain ⟨found, hfound⟩ := Option.isSome_iff_exists.1 hsome
    refine .inr ⟨_, _, herror, ?_, kind, row.id.text, found.id.text, rfl, rfl⟩
    rw [Tables.clash?, hfound]
    rfl

theorem Aligned.forM_alike (h : t.Aligned) (hstaged : staged.Aligned) (listing : Listing)
    (kinds : List Kind) :
    let check := kinds.forM fun kind => (t.table kind).ensureDisjoint listing (staged.table kind)
    (check = .ok () ∧ kinds.findSome? (t.toTables.clash? staged.toTables) = none) ∨
      ∃ listed found, check = .error listed ∧
        kinds.findSome? (t.toTables.clash? staged.toTables) = some found ∧ RefusedAlike listed found := by
  intro check
  induction kinds with
  | nil => exact .inl ⟨rfl, rfl⟩
  | cons kind rest ih =>
      have hstep : check = ((t.table kind).ensureDisjoint listing (staged.table kind)).bind fun _ =>
          rest.forM fun kind => (t.table kind).ensureDisjoint listing (staged.table kind) := rfl
      rw [hstep, List.findSome?_cons]
      rcases h.ensureDisjoint_alike hstaged listing kind with
        ⟨hok, hnone⟩ | ⟨listed, found, herror, hfound, halike⟩
      · rw [hok, hnone]
        exact ih
      · rw [herror, hfound]
        exact .inr ⟨listed, found, rfl, rfl, halike⟩

/-- A commit of indexed tables does what the commit of their rows does, in whatever order indexes are
listed; a refused one may name another id of the same kind. -/
theorem Aligned.commit_alike (h : t.Aligned) (hstaged : staged.Aligned) (listing : Listing) :
    (∃ after, t.commit listing staged = .ok after ∧ after.Aligned ∧
      t.toTables.commit staged.toTables = .ok after.toTables) ∨
    ∃ listed found, t.commit listing staged = .error listed ∧
      t.toTables.commit staged.toTables = .error found ∧ RefusedAlike listed found := by
  rcases h.forM_alike hstaged listing Kind.all with ⟨hok, hnone⟩ | ⟨listed, found, herror, hfound, halike⟩
  · have hcommit : t.toTables.commit staged.toTables = .ok (t.toTables ++ staged.toTables) := by
      rw [Tables.commit, hnone]
    obtain ⟨hclear, -⟩ := Tables.commit_eq_ok_iff.1 hcommit
    obtain ⟨haligned, hrows⟩ := h.absorb hstaged hclear listing
    refine .inl ⟨t.absorb listing staged, ?_, haligned, by rw [hcommit, hrows]⟩
    rw [commit, ensureDisjoint, hok]
    rfl
  · refine .inr ⟨listed, found, ?_, by rw [Tables.commit, hfound], halike⟩
    rw [commit, ensureDisjoint, herror]
    rfl

end IndexedTables

end ContentStore

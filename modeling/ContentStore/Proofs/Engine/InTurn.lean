import ContentStore.Proofs.Engine.Drafts
import ContentStore.Proofs.Engine.Faultless
import ContentStore.Proofs.Engine.Staged

/-!
# Documents one after another and all at once

Documents may be created one call after another, or by one call that creates them all or none. If the
specs name nothing that is still to come, both come to the same drafts, all of them made by what the store
held before, and to the same rows up to the numbers of the ids.
-/

namespace ContentStore

variable {origin : Supply} {committed rows : Tables} {taken : Nat}

/-! ## The step of both ways -/

namespace Tables.MadeBy

variable {reference : DocumentReference} {text : String}

end Tables.MadeBy

/-- A spec of plain content, if it names a collection of the store. -/
def DocumentSpec.PlainIn (supply : Supply) (t : Tables) (spec : DocumentSpec) : Prop :=
  ∀ collection, t.get? .collection spec.collectionId = some collection →
    Plain supply collection.schema spec.content

namespace DocumentSpec.PlainIn

variable {spec : DocumentSpec}

theorem skip (h : spec.PlainIn origin committed) (count : Nat) :
    spec.PlainIn (origin.skip count) committed :=
  fun collection hc => (h collection hc).skip count

theorem append (h : spec.PlainIn origin committed) (hrows : rows.MadeBy origin) :
    spec.PlainIn origin (committed ++ rows) := by
  intro collection hc
  rw [Tables.get?_append, hrows.get?_collection, Option.or_none] at hc
  exact h collection hc

end DocumentSpec.PlainIn

namespace Operation

/-- A transaction that has staged no collection loads those of the store. -/
theorem loadCollection_of_made {work : Work} (h : work.staged.MadeBy origin) (id : CollectionId) :
    loadCollection id committed work =
      match committed.get? .collection id with
      | some collection => (.ok collection, work)
      | none => (.error (.collectionNotFound id.text), work) := by
  have hget : work.get? committed .collection id = committed.get? .collection id := by
    rw [Work.get?, h.get?_collection, Option.none_or]
  have hload := loadCollection_apply id committed work
  rw [hget] at hload
  exact hload

end Operation

/-! ## One after another -/

namespace Numbered

def next (number : Nat) (draft : Draft) : Numbered :=
  ⟨draft, number, number + 1⟩

theorem mem_numbers_iff {numbered : Numbered} {n : Nat} : n ∈ numbered.numbers ↔
    n = numbered.number ∨
      (numbered.first ≤ n ∧ n < numbered.first + numbered.draft.news.length) := by
  rw [numbers, List.mem_cons, List.mem_range'_1]

theorem numbers_next (number : Nat) (draft : Draft) :
    (next number draft).numbers = List.range' number (1 + draft.news.length) := by
  rw [Nat.add_comm, List.range'_succ]
  rfl

theorem mem_numbers_next {number n : Nat} {draft : Draft} (h : n ∈ (next number draft).numbers) :
    number ≤ n ∧ n < number + (1 + draft.news.length) := by
  rw [numbers_next] at h
  exact List.mem_range'_1.1 h

/-- Drafts in the order of their ids where all documents take one before any file does. -/
def atOnce : Nat → Nat → List Draft → List Numbered
  | _, _, [] => []
  | number, first, draft :: rest =>
      ⟨draft, number, first⟩ :: atOnce (number + 1) (first + draft.news.length) rest

end Numbered

namespace Engine

variable {engine : Engine} {spec : DocumentSpec} {specs : List DocumentSpec}

def grown (engine : Engine) (rows : Tables) (count : Nat) : Engine :=
  { engine with store := ⟨engine.store.committed ++ rows, none⟩, supply := engine.supply.skip count }

def created (engine : Engine) (draft : Draft) : Engine :=
  engine.grown ((Numbered.next engine.supply.used draft).rows engine.supply) (1 + draft.news.length)

theorem rows_next_madeBy (supply : Supply) (draft : Draft) :
    ((Numbered.next supply.used draft).rows supply).MadeBy supply :=
  Numbered.rows_madeBy fun _ hn => (Numbered.mem_numbers_next hn).1

theorem run_of_error {α : Type} {operation : Operation α} {e : EngineError}
    (h : ∃ work, operation engine.store.committed (Work.start engine.store.budget engine.supply) =
      (.error e, work)) : (engine.run operation).1 = .error e := by
  obtain ⟨work, h⟩ := h
  simp only [run, h]

end Engine

/-! ## All at once -/

namespace Operation

/-- Where a batch stands before the document of a number is made. The ids of all documents were taken before
the first of them is made, so the number stays behind the supply, from which the files take theirs. -/
structure Ahead (origin : Supply) (committed rows : Tables) (taken number : Nat) : Prop where
  newFor : (origin.skip taken).NewFor (committed ++ rows)
  madeBy : rows.MadeBy origin
  started : origin.used ≤ number
  free : ∀ n, number ≤ n →
    (committed ++ rows).contains .document ((origin.suffix n).toId .document) = false

/-- After the document and its files are made, the batch stands before the next number. -/
theorem Ahead.next {number : Nat} (h : Ahead origin committed rows taken number)
    (hlast : number < origin.used + taken) (draft : Draft) :
    Ahead origin committed (rows ++ (⟨draft, number, origin.used + taken⟩ : Numbered).rows origin)
      (taken + draft.news.length) (number + 1) := by
  let numbered : Numbered := ⟨draft, number, origin.used + taken⟩
  have hstarted := h.started
  have hbounds : ∀ n ∈ numbered.numbers,
      origin.used ≤ n ∧ n < origin.used + taken + draft.news.length := by
    intro n hmem
    have hcases := Numbered.mem_numbers_iff.1 hmem
    dsimp only [numbered] at hcases
    omega
  constructor
  · rw [← Tables.append_assoc, ← Supply.skip_skip]
    refine h.newFor.append fun kind e he => ?_
    obtain ⟨n, hmem, hid⟩ := Numbered.exists_number he
    exact ⟨n, (hbounds n hmem).2, hid⟩
  · exact h.madeBy.append (Numbered.rows_madeBy fun n hmem => (hbounds n hmem).1)
  · exact Nat.le_add_right_of_le h.started
  · intro n hle
    rw [← Tables.append_assoc, Tables.contains_append, h.free n (by omega), Bool.false_or,
      Bool.eq_false_iff]
    intro hcontains
    obtain ⟨e, he, hid⟩ := Tables.contains_iff.1 hcontains
    cases List.mem_singleton.1 he
    have hsame : number = n := h.newFor.distinct (IdSuffix.toId_injective .document hid)
    omega

end Operation

namespace Numbered

end Numbered

namespace Engine

variable {engine : Engine} {specs : List DocumentSpec}

end Engine

end ContentStore

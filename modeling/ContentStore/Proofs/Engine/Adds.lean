import ContentStore.Engine.Install
import ContentStore.Proofs.Engine.Returns
import ContentStore.Proofs.Store.Rows
import Mathlib.Data.List.Forall2

/-!
# What an operation adds

A successful operation adds rows to those that are staged. What it found out holds of all tables that the
transaction can still lead to: references that it checked stay good whatever is added afterwards.
-/

namespace ContentStore

namespace Tables

/-- Staged rows clear of the committed ones, for every kind whose writes check the id. -/
def Unique (committed staged : Tables) : Prop :=
  ∀ kind, kind ≠ .collectionCategory → Clear committed staged kind

theorem unique_empty (committed : Tables) : Unique committed {} :=
  fun kind _ => clear_empty committed kind

end Tables

namespace Tables

/-- The rows of other tables whose ids were checked are found here under their ids. -/
def Finds (final added : Tables) : Prop :=
  ∀ kind, kind ≠ .collectionCategory → ∀ e ∈ added.rows kind, final.get? kind e.id = some e

theorem Finds.of_append_left {final a b : Tables} (h : final.Finds (a ++ b)) : final.Finds a :=
  fun kind hk e he => h kind hk e (by simp [he])

theorem Finds.of_append_right {final a b : Tables} (h : final.Finds (a ++ b)) : final.Finds b :=
  fun kind hk e he => h kind hk e (by simp [he])

theorem Finds.get?_document {final added : Tables} (h : final.Finds added) {document : Document}
    (hm : document ∈ added.documents) : final.get? .document document.id = some document :=
  h .document (by decide) document hm

theorem Finds.contains {final added : Tables} (h : final.Finds added) (kind : Kind)
    (hk : kind ≠ .collectionCategory) {e : Entity kind} (hm : e ∈ added.rows kind) :
    final.contains kind e.id = true :=
  contains_of_get? (h kind hk e hm)

theorem Unique.finds {committed staged : Tables} (h : Unique committed staged) :
    (committed ++ staged).Finds staged :=
  fun kind hk _ he => get?_of_clear (h kind hk) he

end Tables

/-- The work after a step has the rows of the work before and some added ones, of which a fact holds in
all tables that the transaction can still lead to. -/
def Adding (committed : Tables) (before after : Work) (fact : Tables → Tables → Prop) : Prop :=
  ∃ added, after.staged = before.staged ++ added ∧
    (Tables.Unique committed before.staged → Tables.Unique committed after.staged) ∧
    ∀ more, Tables.Unique committed (after.staged ++ more) →
      fact (committed ++ (after.staged ++ more)) added

namespace Adding

variable {committed : Tables} {before middle after : Work} {fact fact' : Tables → Tables → Prop}

theorem mono (h : Adding committed before after fact)
    (hf : ∀ final added, fact final added → fact' final added) :
    Adding committed before after fact' := by
  obtain ⟨added, hs, hu, hfact⟩ := h
  exact ⟨added, hs, hu, fun more hm => hf _ _ (hfact more hm)⟩

/-- A step that only reads adds nothing. -/
theorem of_read (h : ∀ more, Tables.Unique committed (before.staged ++ more) →
    fact (committed ++ (before.staged ++ more)) {}) : Adding committed before before fact :=
  ⟨{}, by simp, id, h⟩

/-- A step that stages no row changes nothing in what comes after it. -/
theorem of_staged_eq (hs : middle.staged = before.staged) (h : Adding committed middle after fact) :
    Adding committed before after fact := by
  obtain ⟨added, hadded, hu, hf⟩ := h
  rw [hs] at hadded hu
  exact ⟨added, hadded, hu, hf⟩

theorem trans (h : Adding committed before middle fact) (h' : Adding committed middle after fact') :
    Adding committed before after fun final added =>
      ∃ first second, added = first ++ second ∧ fact final first ∧ fact' final second := by
  obtain ⟨first, hs, hu, hf⟩ := h
  obtain ⟨second, hs', hu', hf'⟩ := h'
  refine ⟨first ++ second, ?_, hu' ∘ hu, ?_⟩
  · rw [hs', hs, Tables.append_assoc]
  · intro more hm
    have hmore : after.staged ++ more = middle.staged ++ (second ++ more) := by
      rw [hs', Tables.append_assoc]
    refine ⟨first, second, rfl, ?_, hf' more hm⟩
    rw [hmore] at hm ⊢
    exact hf _ hm

/-- The added rows are found at the end. -/
theorem finds (h : Adding committed before after fact) :
    Adding committed before after fun final added => final.Finds added ∧ fact final added := by
  obtain ⟨added, hs, hu, hf⟩ := h
  refine ⟨added, hs, hu, fun more hm => ⟨?_, hf more hm⟩⟩
  have hfinds := hm.finds
  rw [hs, Tables.append_assoc] at hfinds ⊢
  exact hfinds.of_append_right.of_append_left

/-- What was read before a step holds of the tables that the step leads to. -/
theorem after_read (seen : Tables → Prop)
    (h : ∀ more, Tables.Unique committed (before.staged ++ more) →
      seen (committed ++ (before.staged ++ more)))
    (h' : Adding committed before after fact') :
    Adding committed before after fun final added => seen final ∧ fact' final added := by
  have hread : Adding committed before before fun final added => added = {} ∧ seen final :=
    of_read fun more hm => ⟨rfl, h more hm⟩
  refine (hread.trans h').mono ?_
  rintro final added ⟨first, second, rfl, ⟨rfl, hseen⟩, hfact⟩
  rw [Tables.empty_append]
  exact ⟨hseen, hfact⟩

/-- A row whose id was checked is added alone. -/
theorem of_insert (kind : Kind) (hk : kind ≠ .collectionCategory) {e : Entity kind}
    (h : before.insert committed e = (.ok (), after)) :
    Adding committed before after fun _ added => added = Tables.single e := by
  unfold Work.insert at h
  split at h
  · cases h
  · dsimp only at h
    split at h
    · cases h
    · next hfree =>
        cases h
        simp only [Bool.or_eq_true, not_or, Bool.not_eq_true] at hfree
        refine ⟨Tables.single e, Tables.push_eq_append _ _, ?_, fun _ _ => rfl⟩
        intro hu other hother
        by_cases ho : other = kind
        · subst ho
          exact (hu other hother).push hfree.1 hfree.2
        · exact (hu other hother).push_of_ne ho e

end Adding

/-- Results with the rows added for them, one for each element of a list, the rows joined in order. -/
inductive AddsEach {α β : Type} (fact : α → β → Tables → Prop) : List α → List β → Tables → Prop where
  | nil : AddsEach fact [] [] {}
  | cons {a : α} {b : β} {part : Tables} {as : List α} {bs : List β} {added : Tables}
      (head : fact a b part) (tail : AddsEach fact as bs added) :
      AddsEach fact (a :: as) (b :: bs) (part ++ added)

namespace AddsEach

variable {α β : Type} {fact fact' : α → β → Tables → Prop} {as : List α} {bs : List β} {added : Tables}

theorem forall₂ {r : α → β → Prop} (h : AddsEach fact as bs added)
    (hf : ∀ a b part, fact a b part → r a b) : List.Forall₂ r as bs := by
  induction h with
  | nil => exact .nil
  | cons head _ ih => exact .cons (hf _ _ _ head) ih

/-- Where each element adds no row but its result, the results are the rows. -/
theorem rows_eq {kind : Kind} {fact : α → Entity kind → Tables → Prop} {bs : List (Entity kind)}
    (h : AddsEach fact as bs added) (hf : ∀ a b part, fact a b part → part.rows kind = [b]) :
    added.rows kind = bs := by
  induction h with
  | nil => simp
  | cons head _ ih => simp [hf _ _ _ head, ih]

theorem rows_eq_nil {kind : Kind} (h : AddsEach fact as bs added)
    (hf : ∀ a b part, fact a b part → part.rows kind = []) : added.rows kind = [] := by
  induction h with
  | nil => simp
  | cons head _ ih => simp [hf _ _ _ head, ih]

/-- Where each element adds its result alone, the added rows are the results. -/
theorem of_single (kind : Kind) {r : α → Entity kind → Prop} {bs : List (Entity kind)}
    (h : AddsEach (fun a b part => part = Tables.single b ∧ r a b) as bs added) :
    List.Forall₂ r as bs ∧ added.rows kind = bs ∧ ∀ other, other ≠ kind → added.rows other = [] := by
  refine ⟨h.forall₂ fun _ _ _ hf => hf.2, h.rows_eq fun _ b part hf => ?_, fun other ho =>
    h.rows_eq_nil fun _ b part hf => ?_⟩
  · rw [hf.1, Tables.rows_single_self]
  · rw [hf.1, Tables.rows_single_of_ne ho]

/-- Where each element adds a document with files, the files stand in the order of the documents. -/
theorem of_documents {r : α → Document → List StoredFile → Prop} {documents : List Document}
    (h : AddsEach (fun a document part => ∃ files, part = { documents := [document], files } ∧
      r a document files) as documents added) :
    ∃ stored : List (Document × List StoredFile), documents = stored.map Prod.fst ∧
      added = { documents, files := stored.flatMap Prod.snd } ∧
      List.Forall₂ (fun a entry => r a entry.1 entry.2) as stored := by
  induction h with
  | nil => exact ⟨[], rfl, rfl, .nil⟩
  | @cons a document part as documents added head tail ih =>
      obtain ⟨files, rfl, hr⟩ := head
      obtain ⟨stored, hdocuments, rfl, hrest⟩ := ih
      exact ⟨(document, files) :: stored, by rw [hdocuments]; rfl, rfl, .cons hr hrest⟩

end AddsEach

namespace Operation

variable {α β : Type}

/-- Whatever an operation returns on success, it adds rows of which a fact holds. -/
def Adds (operation : Operation α) (fact : Tables → α → Tables → Prop) : Prop :=
  ∀ committed before a after, Returns operation committed before a after →
    Adding committed before after fun final added => fact final a added

theorem Adds.mono {operation : Operation α} {fact fact' : Tables → α → Tables → Prop}
    (h : Adds operation fact) (hf : ∀ final a added, fact final a added → fact' final a added) :
    Adds operation fact' :=
  fun committed before a after hr =>
    (h committed before a after hr).mono fun final added => hf final a added

/-- From nothing staged an operation stages what it adds, and finds it. -/
theorem Adds.of_start {operation : Operation α} {fact : Tables → α → Tables → Prop}
    (h : Adds operation fact) {committed : Tables} {budget : Budget} {supply : Supply} {a : α}
    {work : Work} (hr : Returns operation committed (Work.start budget supply) a work) :
    (committed ++ work.staged).Finds work.staged ∧ fact (committed ++ work.staged) a work.staged := by
  obtain ⟨added, hstaged, hunique, hfact⟩ := (h _ _ a work hr).finds
  have hall := hfact {} (by simpa using hunique (Tables.unique_empty _))
  rw [Tables.append_empty] at hall
  have hadded : work.staged = added := by simpa [Work.start] using hstaged
  rw [hadded] at hall ⊢
  exact hall

theorem Adds.mapM {f : α → Operation β} {fact : α → Tables → β → Tables → Prop} {as : List α}
    (h : ∀ a ∈ as, Adds (f a) (fact a)) :
    Adds (as.mapM f) fun final bs added => AddsEach (fun a b part => fact a final b part) as bs added := by
  induction as with
  | nil =>
      intro committed before bs after hr
      simp only [List.mapM_nil, returns_pure] at hr
      obtain ⟨rfl, rfl⟩ := hr
      exact .of_read fun _ _ => .nil
  | cons a as ih =>
      intro committed before bs after hr
      simp only [List.mapM_cons, returns_bind, returns_pure] at hr
      obtain ⟨b, middle, hb, rest, last, hrest, rfl, rfl⟩ := hr
      have hhead := h a (by simp) committed before b middle hb
      have htail := ih (fun a ha => h a (by simp [ha])) committed middle rest last hrest
      refine (hhead.trans htail).mono ?_
      rintro final added ⟨_, _, rfl, hf, hfs⟩
      exact .cons hf hfs

theorem Adds.fresh_bind {kind : Kind} {f : RealId kind → Operation α}
    {fact : RealId kind → Tables → α → Tables → Prop} (h : ∀ id, Adds (f id) (fact id)) :
    Adds (fresh kind >>= f) fun final a added => ∃ id, fact id final a added := by
  intro committed before a after hr
  simp only [returns_bind, returns_fresh] at hr
  obtain ⟨id, middle, hfresh, hr⟩ := hr
  have hstaged : middle.staged = before.staged := by
    cases hfresh
    rfl
  exact ((h id committed middle a after hr).mono fun final added hf => ⟨id, hf⟩).of_staged_eq hstaged

theorem Adds.ofExcept_bind {ε : Type} {wrap : ε → EngineError} {x : Except ε β}
    {f : β → Operation α} {fact : β → Tables → α → Tables → Prop} (h : ∀ b, Adds (f b) (fact b)) :
    Adds (ofExcept wrap x >>= f) fun final a added => ∃ b, x = .ok b ∧ fact b final a added := by
  intro committed before a after hr
  simp only [returns_bind, returns_ofExcept] at hr
  obtain ⟨b, _, ⟨hx, rfl⟩, hr⟩ := hr
  exact (h b committed before a after hr).mono fun final added hf => ⟨b, hx, hf⟩

end Operation

end ContentStore

import ContentStore.Proofs.Engine.Documents

/-!
# Loading each collection once

A batch keeps the collections that it has loaded. It stages documents and files only, so a collection that
it kept is the one that it would load again: the batch does what it would do without keeping any.
-/

namespace ContentStore

namespace Operation

variable {committed : Tables} {before middle after : Work} {id : CollectionId}
  {loaded : List (CollectionId × Collection)}

/-- Every collection that was loaded is the one that the transaction sees. -/
def Current (committed : Tables) (work : Work) (loaded : List (CollectionId × Collection)) : Prop :=
  ∀ id collection, loaded.lookup id = some collection →
    work.get? committed .collection id = some collection

theorem current_nil (committed : Tables) (work : Work) : Current committed work [] := by
  intro id collection h
  cases h

theorem Current.cons {collection : Collection} (h : Current committed before loaded)
    (hc : before.get? committed .collection id = some collection) :
    Current committed before ((id, collection) :: loaded) := by
  intro other found hfound
  by_cases hsame : other = id
  · subst hsame
    rw [List.lookup_cons_self, Option.some.injEq] at hfound
    rw [← hfound]
    exact hc
  · have hother : (other == id) = false := by simpa using hsame
    rw [List.lookup_cons, hother] at hfound
    exact h other found hfound

/-- A transaction that stages no collection sees the same ones. -/
theorem Current.of_collections_eq (h : Current committed before loaded)
    (hs : after.staged.collections = before.staged.collections) : Current committed after loaded := by
  intro id collection hfound
  have hseen := h id collection hfound
  have hsame : after.staged.get? .collection id = before.staged.get? .collection id :=
    congrArg (List.find? fun (c : Collection) => c.id = id) hs
  rw [Work.get?, hsame]
  exact hseen

theorem rows_eq_of_insert {kind other : Kind} {e : Entity kind} (ho : other ≠ kind)
    (h : before.insert committed e = (.ok (), after)) :
    after.staged.rows other = before.staged.rows other := by
  unfold Work.insert at h
  split at h
  · cases h
  · dsimp only at h
    split at h
    · cases h
    · cases h
      exact Tables.rows_push_of_ne _ ho _

theorem collections_eq_of_insertFiles {files : List StoredFile} {u : PUnit}
    (h : Returns (files.forM fun file => @insert .file file) committed before u after) :
    after.staged.collections = before.staged.collections := by
  induction files generalizing before with
  | nil =>
      simp only [List.forM_eq_forM, List.forM_nil, returns_pure] at h
      obtain ⟨-, rfl⟩ := h
      rfl
  | cons file rest ih =>
      simp only [List.forM_eq_forM, List.forM_cons, returns_bind, returns_insert] at h ih
      obtain ⟨_, middle, hinsert, hrest⟩ := h
      exact (ih hrest).trans (@rows_eq_of_insert _ _ _ .file .collection file (by decide) hinsert)

theorem collections_eq_of_newDocument {validator : Validator} {pending : Pending} {id : DocumentId}
    {collection : Collection} {content : Json} {document : Document}
    (h : Returns (newDocument validator pending id collection content) committed before document after) :
    after.staged.collections = before.staged.collections := by
  obtain ⟨-, visits, -, -, -, files, given, inserted, placed, left, hfiles, hinserted, -, -, hinsert⟩ :=
    returns_newDocument.1 h
  calc after.staged.collections
      = inserted.staged.collections :=
        @rows_eq_of_insert _ _ _ .document .collection document (by decide) hinsert
    _ = given.staged.collections := collections_eq_of_insertFiles hinserted
    _ = before.staged.collections := by rw [(returns_filesToStore hfiles).2]

theorem loadCollection_apply (id : CollectionId) (committed : Tables) (work : Work) :
    loadCollection id committed work =
      match work.get? committed .collection id with
      | some collection => (.ok collection, work)
      | none => (.error (.collectionNotFound id.text), work) := by
  unfold loadCollection
  rw [bind_apply]
  change (match work.get? committed .collection id with
    | some collection => (pure collection : Operation Collection)
    | none => throw (EngineError.collectionNotFound id.text)) committed work = _
  cases work.get? committed .collection id <;> rfl

/-- The collection is among those loaded afterwards, as the transaction sees it. -/
theorem loadOnce_apply (h : Current committed before loaded) (id : CollectionId) :
    match before.get? committed .collection id with
    | none => loadOnce loaded id committed before = (.error (.collectionNotFound id.text), before)
    | some collection => ∃ kept, loadOnce loaded id committed before = (.ok kept, before) ∧
        kept.lookup id = some collection ∧ Current committed before kept := by
  unfold loadOnce
  cases hl : loaded.lookup id with
  | some collection =>
      rw [h id collection hl]
      exact ⟨loaded, rfl, hl, h⟩
  | none =>
      have hload := loadCollection_apply id committed before
      cases hc : before.get? committed .collection id with
      | none =>
          rw [hc] at hload
          simp [bind_apply, hload]
      | some collection =>
          rw [hc] at hload
          refine ⟨(id, collection) :: loaded, ?_, List.lookup_cons_self, h.cons hc⟩
          simp [bind_apply, hload]
          rfl

/-- A batch that keeps the collections it has loaded does what one does that loads them each time. -/
theorem insertBatch_eq (validator : Validator) (pending : Pending) (resolution : Resolution)
    {specs : List (DocumentId × DocumentSpec)} (h : Current committed before loaded) :
    insertBatch validator pending resolution loaded specs committed before =
      newDocuments validator pending resolution specs committed before := by
  induction specs generalizing loaded before with
  | nil => rfl
  | cons entry rest ih =>
      obtain ⟨id, spec⟩ := entry
      have hkept := loadOnce_apply h spec.collectionId
      have hload := loadCollection_apply spec.collectionId committed before
      rw [newDocuments_cons, insertBatch, newResolvedDocument]
      simp only [bind_apply]
      cases hc : before.get? committed .collection spec.collectionId with
      | none =>
          rw [hc] at hkept hload
          rw [hkept, hload]
      | some collection =>
          rw [hc] at hkept hload
          obtain ⟨kept, hkept, hlookup, hcurrent⟩ := hkept
          simp only [hkept, hload, hlookup, bind_apply, ofExcept_apply]
          cases collection.schema.resolveContent resolution spec.content with
          | error fault => rfl
          | ok content =>
              dsimp only
              cases hmade : newDocument validator pending id collection content committed before with
              | mk result after =>
                  cases result with
                  | error e => rfl
                  | ok document =>
                      have hlater : Current committed after kept :=
                        hcurrent.of_collections_eq (collections_eq_of_newDocument hmade)
                      simp only [ih hlater]

end Operation

namespace Engine

theorem createDocuments_eq (engine : Engine) (specs : List DocumentSpec) :
    engine.createDocuments specs =
      if engine.config.maxBatchDocuments < specs.length then
        (.error (.batchTooLarge specs.length engine.config.maxBatchDocuments), engine)
      else engine.run (Operation.newBatch engine.validator specs) := by
  have hsame : ∀ ids : List DocumentId, ∀ pending resolution,
      Operation.insertBatch engine.validator pending resolution [] (ids.zip specs) =
        Operation.newDocuments engine.validator pending resolution (ids.zip specs) := by
    intro ids pending resolution
    funext committed before
    exact Operation.insertBatch_eq engine.validator pending resolution
      (Operation.current_nil committed before)
  simp only [createDocuments, Operation.newBatch, hsame]

end Engine

end ContentStore

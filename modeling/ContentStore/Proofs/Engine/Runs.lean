import ContentStore.Proofs.Engine.Write

/-!
# Runs of calls

Calls are made one after another, each under its own limit on the writes that the store still accepts.
What every call preserves holds after each run from an empty store.
-/

namespace ContentStore.Engine

def writeAll (engine : Engine) (calls : List (Budget × Write)) : Engine :=
  calls.foldl (fun engine call => ((engine.limitWrites call.1).write call.2).2) engine

/-- What holds at first and is kept by every call of a run holds after it. -/
theorem writeAll_induction_mem {holds : Engine → Prop} {engine : Engine} (first : holds engine)
    {calls : List (Budget × Write)} (step : ∀ engine, ∀ call ∈ calls, holds engine →
      holds ((engine.limitWrites call.1).write call.2).2) : holds (engine.writeAll calls) := by
  induction calls generalizing engine with
  | nil => exact first
  | cons call rest ih =>
      exact ih (step engine call (by simp) first) fun engine other hother =>
        step engine other (by simp [hother])

/-- What holds at first and is kept by every call holds after a run. -/
theorem writeAll_induction {holds : Engine → Prop} {engine : Engine} (first : holds engine)
    (step : ∀ engine budget call, holds engine → holds ((engine.limitWrites budget).write call).2)
    (calls : List (Budget × Write)) : holds (engine.writeAll calls) :=
  writeAll_induction_mem first fun engine call _ => step engine call.1 call.2

theorem write_closed {engine : Engine} (h : engine.store.committed.Closed) (call : Write) :
    (engine.write call).2.store.committed.Closed := by
  have hleaves := write_leaves engine call
  cases hresult : (engine.write call).1 with
  | error error =>
      rw [hleaves.failed error hresult]
      exact h
  | ok created =>
      obtain ⟨added, hcommitted, hadds⟩ := hleaves.succeeded created hresult
      have hsupported := hadds.supported
      rw [hcommitted] at hsupported ⊢
      exact h.append hsupported

/-- After every run from an empty store, all that the committed rows refer to is committed. -/
theorem writeAll_closed (supply : Supply) (formats : FormatRegistry) (config : EngineConfig)
    (calls : List (Budget × Write)) :
    (({ supply, formats, config } : Engine).writeAll calls).store.committed.Closed := by
  have hempty : ({ supply, formats, config } : Engine).store.committed.Closed :=
    Tables.supports_empty {}
  have hstep : ∀ (engine : Engine) (budget : Budget) (call : Write), engine.store.committed.Closed →
      ((engine.limitWrites budget).write call).2.store.committed.Closed :=
    fun engine budget call h => @write_closed (engine.limitWrites budget) h call
  exact writeAll_induction hempty hstep calls

/-- The committed documents of an engine, with given formats and limits, are valid as they are stored. -/
structure Valid (formats : FormatRegistry) (config : EngineConfig) (engine : Engine) : Prop where
  formats_eq : engine.formats = formats
  config_eq : engine.config = config
  admits : ∀ document ∈ engine.store.committed.documents,
    engine.store.committed.Admits engine.validator document

theorem write_valid {formats : FormatRegistry} {config : EngineConfig} {engine : Engine}
    (h : engine.Valid formats config) (call : Write) : (engine.write call).2.Valid formats config := by
  have hleaves := write_leaves engine call
  have hvalidator : (engine.write call).2.validator = engine.validator := by
    rw [validator, validator, hleaves.formats, hleaves.config]
  refine ⟨hleaves.formats.trans h.formats_eq, hleaves.config.trans h.config_eq, ?_⟩
  rw [hvalidator]
  cases hresult : (engine.write call).1 with
  | error error =>
      rw [hleaves.failed error hresult]
      exact h.admits
  | ok created =>
      obtain ⟨added, hcommitted, hadds⟩ := hleaves.succeeded created hresult
      intro document hmem
      rw [hcommitted] at hmem
      rcases List.mem_append.1 hmem with hold | hnew
      · rw [hcommitted]
        exact (h.admits document hold).grow added
      · exact hadds.admitted document hnew

/-- After every run from an empty store, the content of each committed document has no issue under the
schema of its collection and holds no new file. -/
theorem writeAll_valid (supply : Supply) (formats : FormatRegistry) (config : EngineConfig)
    (calls : List (Budget × Write)) :
    let engine := ({ supply, formats, config } : Engine).writeAll calls
    engine.formats = formats ∧ engine.config = config ∧
      ∀ document ∈ engine.store.committed.documents, ∃ (collection : Collection) (visits : List Visit),
        engine.get? .collection document.collectionId = some collection ∧
        engine.validator.validate collection.schema document.content = .ok [] ∧
        collection.schema.visitContent document.content = .ok visits ∧
        ∀ visit ∈ visits, visit.newFile? = none := by
  have hempty : ({ supply, formats, config } : Engine).Valid formats config :=
    ⟨rfl, rfl, List.forall_mem_nil _⟩
  have hstep : ∀ (engine : Engine) (budget : Budget) (call : Write), engine.Valid formats config →
      ((engine.limitWrites budget).write call).2.Valid formats config :=
    fun engine budget call h =>
      @write_valid formats config (engine.limitWrites budget)
        ⟨h.formats_eq, h.config_eq, h.admits⟩ call
  obtain ⟨hformats, hconfig, hadmits⟩ := writeAll_induction hempty hstep calls
  exact ⟨hformats, hconfig, hadmits⟩

end ContentStore.Engine

import ContentStore.Proofs.Engine.Decides

/-!
# How an operation ends

An operation ends in a result or in an error. It is described by a set of errors outside of which it does
not fail, together with what holds of its result. What a sequence of steps fails with, one of its steps
fails with.
-/

namespace ContentStore

namespace Operation

variable {α β : Type} {committed : Tables} {before : Work}

/-- From the work before, an operation fails only with errors of a set, and a fact holds of what it
returns and of the work that it leaves. -/
structure EndsIn (operation : Operation α) (committed : Tables) (before : Work)
    (errors : EngineError → Prop) (fact : α → Work → Prop) : Prop where
  failed : ∀ {e after}, operation committed before = (.error e, after) → errors e
  returned : ∀ {a after}, Returns operation committed before a after → fact a after

namespace EndsIn

variable {errors errors' : EngineError → Prop} {fact fact' : α → Work → Prop}

theorem mono {operation : Operation α} (h : EndsIn operation committed before errors fact)
    (he : ∀ e, errors e → errors' e) (hf : ∀ a after, fact a after → fact' a after) :
    EndsIn operation committed before errors' fact' where
  failed hr := he _ (h.failed hr)
  returned hr := hf _ _ (h.returned hr)

/-- The errors are known from one source, the results from another. -/
theorem returning {operation : Operation α} (h : EndsIn operation committed before errors fact)
    (hf : ∀ a after, Returns operation committed before a after → fact' a after) :
    EndsIn operation committed before errors fact' where
  failed hr := h.failed hr
  returned hr := hf _ _ hr

theorem pure {a : α} (h : fact a before) : EndsIn (Pure.pure a) committed before errors fact where
  failed hr := by cases hr
  returned hr := by
    obtain ⟨rfl, rfl⟩ := returns_pure.1 hr
    exact h

theorem throw {e : EngineError} (h : errors e) :
    EndsIn (MonadExcept.throw e) committed before errors fact where
  failed hr := by
    cases hr
    exact h
  returned hr := absurd hr returns_throw

theorem bind {x : Operation α} {f : α → Operation β} {fact' : β → Work → Prop}
    (hx : EndsIn x committed before errors fact)
    (hf : ∀ a middle, fact a middle → EndsIn (f a) committed middle errors fact') :
    EndsIn (x >>= f) committed before errors fact' where
  failed hr := by
    rw [bind_apply] at hr
    split at hr
    · next a middle ha => exact (hf a middle (hx.returned ha)).failed hr
    · next e middle he =>
        cases hr
        exact hx.failed he
  returned hr := by
    obtain ⟨a, middle, ha, hb⟩ := returns_bind.1 hr
    exact (hf a middle (hx.returned ha)).returned hb

theorem answer {x : Operation α} {g : α → β} {fact' : β → Work → Prop}
    (hx : EndsIn x committed before errors fact) (hg : ∀ a after, fact a after → fact' (g a) after) :
    EndsIn (x >>= fun a => Pure.pure (g a)) committed before errors fact' :=
  hx.bind fun a after h => .pure (hg a after h)

theorem ite {condition : Prop} [Decidable condition] {x y : Operation α}
    (hx : condition → EndsIn x committed before errors fact)
    (hy : ¬ condition → EndsIn y committed before errors fact) :
    EndsIn (if condition then x else y) committed before errors fact := by
  split
  · next h => exact hx h
  · next h => exact hy h

theorem throw_bind {e : EngineError} {f : β → Operation α} (h : errors e) :
    EndsIn (MonadExcept.throw e >>= f) committed before errors fact :=
  (throw h : EndsIn (MonadExcept.throw e) committed before errors fun _ _ => False).bind
    fun _ _ hfalse => hfalse.elim

theorem ofExcept {ε : Type} {wrap : ε → EngineError} {x : Except ε α}
    (he : ∀ e, x = .error e → errors (wrap e)) :
    EndsIn (Operation.ofExcept wrap x) committed before errors fun a after =>
      x = .ok a ∧ after = before := by
  cases x with
  | ok a => exact .pure ⟨rfl, rfl⟩
  | error e => exact .throw (he e rfl)

theorem of_decides {operation : Operation α} (h : Decides operation committed before True fact) :
    EndsIn operation committed before errors fact where
  failed hr := by
    obtain ⟨a, after, ha⟩ := h.enough trivial
    cases hr.symm.trans ha
  returned hr := (h.needed hr).2

theorem of_reads {operation : Operation α} {view : Work → α} (h : Reads operation committed view) :
    EndsIn operation committed before errors fun a after => a = view before ∧ after = before where
  failed hr := by
    rw [h before] at hr
    cases hr
  returned hr := by
    obtain ⟨ha, hafter⟩ := h.returns_iff.1 hr
    exact ⟨ha, hafter.symm⟩

/-- Operations one after another, under a condition on the work that all of them keep. -/
theorem mapM_keeping {f : α → Operation β} {as : List α} (keeps : Work → Prop) (hstart : keeps before)
    (hstep : ∀ a ∈ as, ∀ middle, keeps middle →
      EndsIn (f a) committed middle errors fun _ after => keeps after) :
    EndsIn (as.mapM f) committed before errors fun _ after => keeps after := by
  induction as generalizing before with
  | nil =>
      rw [List.mapM_nil]
      exact .pure hstart
  | cons a rest ih =>
      rw [List.mapM_cons]
      refine (hstep a (by simp) before hstart).bind fun _ middle hmiddle => ?_
      have hrest := ih hmiddle fun b hb => hstep b (by simp [hb])
      exact hrest.answer fun _ _ hlast => hlast

theorem forM_keeping {f : α → Operation PUnit} {as : List α} (keeps : Work → Prop) (hstart : keeps before)
    (hstep : ∀ a ∈ as, ∀ middle, keeps middle →
      EndsIn (f a) committed middle errors fun _ after => keeps after) :
    EndsIn (as.forM f) committed before errors fun _ after => keeps after := by
  induction as generalizing before with
  | nil => exact .pure hstart
  | cons a rest ih =>
      rw [List.forM_eq_forM, List.forM_cons, ← List.forM_eq_forM]
      refine (hstep a (by simp) before hstart).bind fun _ middle hmiddle => ?_
      exact ih hmiddle fun b hb => hstep b (by simp [hb])

end EndsIn

/-! ### The steps of operations -/

section Steps

variable {errors : EngineError → Prop}

theorem endsIn_modifyGet (f : Work → α × Work) :
    EndsIn (modifyGet f) committed before errors fun a after => f before = (a, after) where
  failed hr := by cases hr
  returned hr := returns_modifyGet.1 hr

theorem endsIn_now :
    EndsIn now committed before errors fun time after => time = before.supply.now ∧ after = before where
  failed hr := by cases hr
  returned hr := by
    obtain ⟨rfl, rfl⟩ := returns_now.1 hr
    exact ⟨rfl, rfl⟩

theorem endsIn_insert (kind : Kind) (e : Entity kind) (hr : ∀ refusal, errors (.refused refusal)) :
    EndsIn (insert e) committed before errors fun _ after =>
      before.insert committed e = (.ok (), after) := by
  have hread : Reads (read : Operation Tables) committed fun _ => committed := fun _ => rfl
  refine (EndsIn.of_reads hread).bind fun rows same hsame => ?_
  obtain ⟨rfl, rfl⟩ := hsame
  refine (endsIn_modifyGet _).bind fun result after hresult => ?_
  refine (EndsIn.ofExcept fun refusal _ => hr refusal).mono (fun _ he => he) ?_
  rintro _ _ ⟨rfl, rfl⟩
  exact hresult

theorem endsIn_createCategory (name icon : String) (parentId : Option CollectionCategoryId)
    (hr : ∀ refusal, errors (.refused refusal)) :
    EndsIn (createCategory name icon parentId) committed before errors fun category after =>
      before.createCategory name icon parentId = (.ok category, after) := by
  refine (endsIn_modifyGet _).bind fun result after hresult => ?_
  refine (EndsIn.ofExcept fun refusal _ => hr refusal).mono (fun _ he => he) ?_
  rintro _ _ ⟨rfl, rfl⟩
  exact hresult

end Steps

end Operation

/-- A run fails with an error of its operation, or the commit is refused. -/
theorem Engine.run_fails {α : Type} {engine : Engine} {operation : Operation α}
    {errors : EngineError → Prop} {fact : α → Work → Prop}
    (h : operation.EndsIn engine.store.committed (Work.start engine.store.budget engine.supply) errors
      fact) (hr : ∀ refusal, errors (.refused refusal)) {e : EngineError}
    (he : (engine.run operation).1 = .error e) : errors e := by
  unfold Engine.run at he
  dsimp only at he
  split at he
  next result work hresult =>
    cases result with
    | error error =>
        cases he
        exact h.failed hresult
    | ok a =>
        dsimp only at he
        split at he
        · cases he
          exact hr _
        · cases he

end ContentStore

import ContentStore.Engine.Operation
import Mathlib.Control.Lawful
import Mathlib.Data.List.Forall2

/-!
# Steps that succeed

An operation that returns a value has returned one at every step. Each step is described by what it
returns and by the work that it leaves.
-/

namespace ContentStore.Operation

variable {α β : Type}

/-- On the committed rows and the work before, an operation returns a value and leaves the work after. -/
def Returns (operation : Operation α) (committed : Tables) (before : Work) (a : α) (after : Work) : Prop :=
  operation committed before = (.ok a, after)

variable {committed : Tables} {before after : Work}

@[simp] theorem returns_pure {a b : α} :
    Returns (pure a) committed before b after ↔ b = a ∧ before = after := by
  constructor
  · intro h
    cases h
    exact ⟨rfl, rfl⟩
  · rintro ⟨rfl, rfl⟩
    rfl

theorem bind_apply (x : Operation α) (f : α → Operation β) (committed : Tables) (before : Work) :
    (x >>= f) committed before =
      match x committed before with
      | (.ok a, middle) => f a committed middle
      | (.error e, middle) => (.error e, middle) := by
  simp only [bind, ReaderT.bind, ExceptT.bind, ExceptT.mk, StateT.bind, ExceptT.bindCont]
  cases x committed before with
  | mk result middle => cases result <;> rfl

theorem ofExcept_apply {ε α : Type} (wrap : ε → EngineError) (x : Except ε α) (committed : Tables)
    (work : Work) :
    ofExcept wrap x committed work =
      match x with
      | .ok a => (.ok a, work)
      | .error e => (.error (wrap e), work) := by
  cases x <;> rfl

@[simp] theorem returns_bind {x : Operation α} {f : α → Operation β} {b : β} :
    Returns (x >>= f) committed before b after ↔
      ∃ a middle, Returns x committed before a middle ∧ Returns (f a) committed middle b after := by
  unfold Returns
  rw [bind_apply]
  constructor
  · intro h
    split at h
    · next a middle hx => exact ⟨a, middle, hx, h⟩
    · cases h
  · rintro ⟨a, middle, hx, hf⟩
    rw [hx]
    exact hf

@[simp] theorem returns_map {x : Operation α} {f : α → β} {b : β} :
    Returns (f <$> x) committed before b after ↔
      ∃ a, Returns x committed before a after ∧ b = f a := by
  rw [map_eq_pure_bind]
  simp only [returns_bind, returns_pure]
  constructor
  · rintro ⟨a, _, hx, rfl, rfl⟩
    exact ⟨a, hx, rfl⟩
  · rintro ⟨a, hx, rfl⟩
    exact ⟨a, after, hx, rfl, rfl⟩

@[simp] theorem returns_throw {e : EngineError} {a : α} :
    ¬ Returns (throw e) committed before a after := by
  intro h
  cases h

@[simp] theorem returns_ofExcept {ε : Type} {wrap : ε → EngineError} {x : Except ε α} {a : α} :
    Returns (ofExcept wrap x) committed before a after ↔ x = .ok a ∧ before = after := by
  cases x with
  | ok b => simp [ofExcept, eq_comm]
  | error e => simp [ofExcept]

@[simp] theorem returns_get? {kind : Kind} {id : RealId kind} {e : Option (Entity kind)} :
    Returns (get? kind id) committed before e after ↔
      e = before.get? committed kind id ∧ before = after := by
  constructor
  · intro h
    cases h
    exact ⟨rfl, rfl⟩
  · rintro ⟨rfl, rfl⟩
    rfl

@[simp] theorem returns_present {kind : Kind} {id : RealId kind} {found : Bool} :
    Returns (present kind id) committed before found after ↔
      found = (before.get? committed kind id).isSome ∧ before = after := by
  simp only [present, returns_bind, returns_get?, returns_pure]
  constructor
  · rintro ⟨_, _, ⟨rfl, rfl⟩, rfl, rfl⟩
    exact ⟨rfl, rfl⟩
  · rintro ⟨rfl, rfl⟩
    exact ⟨_, _, ⟨rfl, rfl⟩, rfl, rfl⟩

@[simp] theorem returns_read {rows : Tables} :
    Returns read committed before rows after ↔ rows = committed ∧ before = after := by
  constructor
  · intro h
    cases h
    exact ⟨rfl, rfl⟩
  · rintro ⟨rfl, rfl⟩
    rfl

@[simp] theorem returns_modifyGet {f : Work → α × Work} {a : α} :
    Returns (modifyGet f) committed before a after ↔ f before = (a, after) := by
  constructor
  · intro h
    cases h
    rfl
  · intro h
    show (Except.ok (f before).1, (f before).2) = _
    rw [h]

@[simp] theorem returns_fresh {kind : Kind} {id : RealId kind} :
    Returns (fresh kind) committed before id after ↔ before.fresh kind = (id, after) :=
  returns_modifyGet

@[simp] theorem returns_insert {kind : Kind} {e : Entity kind} {u : Unit} :
    Returns (insert e) committed before u after ↔ before.insert committed e = (.ok (), after) := by
  simp only [insert, returns_bind, returns_read, returns_modifyGet, returns_ofExcept]
  constructor
  · rintro ⟨_, _, ⟨rfl, rfl⟩, _, _, hw, rfl, rfl⟩
    exact hw
  · intro hw
    exact ⟨_, _, ⟨rfl, rfl⟩, _, _, hw, rfl, rfl⟩

@[simp] theorem returns_createCategory {name icon : String} {parentId : Option CollectionCategoryId}
    {category : CollectionCategory} :
    Returns (createCategory name icon parentId) committed before category after ↔
      before.createCategory name icon parentId = (.ok category, after) := by
  simp only [createCategory, returns_bind, returns_modifyGet, returns_ofExcept]
  constructor
  · rintro ⟨_, _, hw, rfl, rfl⟩
    exact hw
  · intro hw
    exact ⟨_, _, hw, rfl, rfl⟩

@[simp] theorem returns_now {time : Int64} :
    Returns now committed before time after ↔ time = before.supply.now ∧ before = after := by
  constructor
  · intro h
    cases h
    exact ⟨rfl, rfl⟩
  · rintro ⟨rfl, rfl⟩
    rfl

/-- A guard lets pass exactly where its condition holds. -/
@[simp] theorem returns_guard {condition : Prop} [Decidable condition] {e : EngineError}
    {x : Operation α} {a : α} :
    Returns (if condition then x else throw e) committed before a after ↔
      condition ∧ Returns x committed before a after := by
  by_cases h : condition <;> simp [h]

@[simp] theorem returns_guard_bind {condition : Prop} [Decidable condition] {e : EngineError}
    {x : Operation α} {f : β → Operation α} {a : α} :
    Returns (if condition then x else throw e >>= f) committed before a after ↔
      condition ∧ Returns x committed before a after := by
  by_cases h : condition <;> simp [h]

/-- A list of checks passes exactly where each of them does. -/
theorem returns_forM {check : α → Operation PUnit} {holds : α → Prop}
    (h : ∀ a u after, Returns (check a) committed before u after ↔ holds a ∧ before = after)
    {as : List α} {u : PUnit} :
    Returns (as.forM check) committed before u after ↔ (∀ a ∈ as, holds a) ∧ before = after := by
  induction as with
  | nil => simp
  | cons a as ih =>
      simp only [List.forM_eq_forM, List.forM_cons, returns_bind, h] at ih ⊢
      constructor
      · rintro ⟨_, _, ⟨ha, rfl⟩, hr⟩
        obtain ⟨has, rfl⟩ := ih.1 hr
        exact ⟨by simpa using ⟨ha, has⟩, rfl⟩
      · rintro ⟨has, rfl⟩
        exact ⟨⟨⟩, _, ⟨has a (by simp), rfl⟩, ih.2 ⟨fun b hb => has b (by simp [hb]), rfl⟩⟩

/-- What each operation of a list returns is related to what it was made from. -/
theorem forall₂_of_returns_mapM {f : α → Operation β} {r : α → β → Prop}
    (h : ∀ a before b after, Returns (f a) committed before b after → r a b) {as : List α} {bs : List β}
    (hr : Returns (as.mapM f) committed before bs after) : List.Forall₂ r as bs := by
  induction as generalizing before bs with
  | nil =>
      rw [List.mapM_nil, returns_pure] at hr
      obtain ⟨rfl, -⟩ := hr
      exact .nil
  | cons a as ih =>
      simp only [List.mapM_cons, returns_bind, returns_pure] at hr
      obtain ⟨b, middle, hb, others, _, hothers, rfl, rfl⟩ := hr
      exact .cons (h a _ b _ hb) (ih hothers)

/-! ### Steps that only look -/

/-- An operation that cannot fail and leaves the work as it is, giving what it sees there. -/
def Reads (operation : Operation α) (committed : Tables) (view : Work → α) : Prop :=
  ∀ work, operation committed work = (.ok (view work), work)

namespace Reads

variable {view : Work → α}

theorem returns_iff {operation : Operation α} (h : Reads operation committed view) {a : α} :
    Returns operation committed before a after ↔ a = view before ∧ before = after := by
  unfold Returns
  rw [h before]
  constructor
  · rintro ⟨⟩
    exact ⟨rfl, rfl⟩
  · rintro ⟨rfl, rfl⟩
    rfl

theorem pure (a : α) : Reads (Pure.pure a) committed fun _ => a :=
  fun _ => rfl

theorem bind {x : Operation α} {f : α → Operation β} {next : α → Work → β}
    (hx : Reads x committed view) (hf : ∀ a, Reads (f a) committed (next a)) :
    Reads (x >>= f) committed fun work => next (view work) work := by
  intro work
  rw [bind_apply, hx work]
  exact hf _ work

theorem present (kind : Kind) (id : RealId kind) :
    Reads (Operation.present kind id) committed fun work => (work.get? committed kind id).isSome :=
  fun _ => rfl

theorem filterM {p : α → Operation Bool} {holds : α → Work → Bool}
    (h : ∀ a, Reads (p a) committed (holds a)) (as : List α) :
    Reads (as.filterM p) committed fun work => as.filter fun a => holds a work := by
  have haux : ∀ found, Reads (as.filterAuxM p found) committed fun work =>
      (as.filter fun a => holds a work).reverse ++ found := by
    induction as with
    | nil => exact fun found => .pure found
    | cons a as ih =>
        intro found work
        rw [List.filterAuxM, bind_apply, h a work]
        dsimp only
        rw [ih _ work]
        cases ha : holds a work <;> simp [ha]
  have hreverse := (haux []).bind fun found => .pure found.reverse
  simp only [List.append_nil, List.reverse_reverse] at hreverse
  exact hreverse

end Reads

end ContentStore.Operation

import ContentStore.Proofs.Engine.Decides
import Mathlib.Data.List.Forall2

/-!
# Operations that succeed together

Two operations are compared step by step, each in a transaction of its own. They agree if the one succeeds
exactly where the other does, with related results and related works. Where corresponding steps agree, so
do the operations that are made of them.
-/

namespace ContentStore.Operation

variable {α β γ δ : Type}

/-- Two operations, each on committed rows and work of its own, succeed together, and what they return and
the works that they leave are related. -/
structure Agrees (x : Operation α) (y : Operation β) (committed committed' : Tables)
    (before before' : Work) (related : α → Work → β → Work → Prop) : Prop where
  forth : ∀ {a after}, Returns x committed before a after →
    ∃ b after', Returns y committed' before' b after' ∧ related a after b after'
  back : ∀ {b after'}, Returns y committed' before' b after' →
    ∃ a after, Returns x committed before a after ∧ related a after b after'

namespace Agrees

variable {committed committed' : Tables} {before before' : Work} {x : Operation α} {y : Operation β}
  {related related' : α → Work → β → Work → Prop}

theorem mono (h : Agrees x y committed committed' before before' related)
    (hr : ∀ a after b after', related a after b after' → related' a after b after') :
    Agrees x y committed committed' before before' related' where
  forth hx := by
    obtain ⟨b, after', hy, hrelated⟩ := h.forth hx
    exact ⟨b, after', hy, hr _ _ _ _ hrelated⟩
  back hy := by
    obtain ⟨a, after, hx, hrelated⟩ := h.back hy
    exact ⟨a, after, hx, hr _ _ _ _ hrelated⟩

theorem pure {a : α} {b : β} (h : related a before b before') :
    Agrees (Pure.pure a) (Pure.pure b) committed committed' before before' related where
  forth hx := by
    obtain ⟨rfl, rfl⟩ := returns_pure.1 hx
    exact ⟨b, before', returns_pure.2 ⟨rfl, rfl⟩, h⟩
  back hy := by
    obtain ⟨rfl, rfl⟩ := returns_pure.1 hy
    exact ⟨a, before, returns_pure.2 ⟨rfl, rfl⟩, h⟩

theorem bind {f : α → Operation γ} {g : β → Operation δ} {next : γ → Work → δ → Work → Prop}
    (h : Agrees x y committed committed' before before' related)
    (hf : ∀ a middle b middle', related a middle b middle' →
      Agrees (f a) (g b) committed committed' middle middle' next) :
    Agrees (x >>= f) (y >>= g) committed committed' before before' next where
  forth hx := by
    obtain ⟨a, middle, ha, hc⟩ := returns_bind.1 hx
    obtain ⟨b, middle', hb, hrelated⟩ := h.forth ha
    obtain ⟨d, after', hd, hnext⟩ := (hf _ _ _ _ hrelated).forth hc
    exact ⟨d, after', returns_bind.2 ⟨b, middle', hb, hd⟩, hnext⟩
  back hy := by
    obtain ⟨b, middle', hb, hd⟩ := returns_bind.1 hy
    obtain ⟨a, middle, ha, hrelated⟩ := h.back hb
    obtain ⟨c, after, hc, hnext⟩ := (hf _ _ _ _ hrelated).back hd
    exact ⟨c, after, returns_bind.2 ⟨a, middle, ha, hc⟩, hnext⟩

theorem symm (h : Agrees x y committed committed' before before' related) :
    Agrees y x committed' committed before' before fun b after' a after => related a after b after' :=
  ⟨h.back, h.forth⟩

/-- A step that only the one operation takes and that always succeeds does not part them. -/
theorem after_right {y : Operation β} {g : β → Operation δ} {fact : β → Work → Prop}
    {related : α → Work → δ → Work → Prop} (hy : Decides y committed' before' True fact)
    (h : ∀ b middle', fact b middle' → Agrees x (g b) committed committed' before middle' related) :
    Agrees x (y >>= g) committed committed' before before' related where
  forth hx := by
    obtain ⟨b, middle', hb⟩ := hy.enough trivial
    obtain ⟨d, after', hd, hrelated⟩ := (h b middle' (hy.needed hb).2).forth hx
    exact ⟨d, after', returns_bind.2 ⟨b, middle', hb, hd⟩, hrelated⟩
  back hr := by
    obtain ⟨b, middle', hb, hd⟩ := returns_bind.1 hr
    exact (h b middle' (hy.needed hb).2).back hd

theorem after_left {x : Operation α} {f : α → Operation γ} {fact : α → Work → Prop}
    {related : γ → Work → β → Work → Prop} (hx : Decides x committed before True fact)
    (h : ∀ a middle, fact a middle → Agrees (f a) y committed committed' middle before' related) :
    Agrees (x >>= f) y committed committed' before before' related :=
  (after_right hx fun a middle ha => (h a middle ha).symm).symm

/-- Operations that begin with checks agree if the checks pass together and the rest agrees where they
do. -/
theorem of_checks {s : Operation α} {t : Operation β} {p q : Prop}
    (hx : ∀ {a after}, Returns x committed before a after ↔ p ∧ Returns s committed before a after)
    (hy : ∀ {b after'}, Returns y committed' before' b after' ↔
      q ∧ Returns t committed' before' b after') (hpq : p ↔ q)
    (h : p → Agrees s t committed committed' before before' related) :
    Agrees x y committed committed' before before' related where
  forth hr := by
    obtain ⟨hp, hr⟩ := hx.1 hr
    obtain ⟨b, after', hb, hrelated⟩ := (h hp).forth hr
    exact ⟨b, after', hy.2 ⟨hpq.1 hp, hb⟩, hrelated⟩
  back hr := by
    obtain ⟨hq, hr⟩ := hy.1 hr
    obtain ⟨a, after, ha, hrelated⟩ := (h (hpq.2 hq)).back hr
    exact ⟨a, after, hx.2 ⟨hpq.2 hq, ha⟩, hrelated⟩

/-- Two operations whose conditions are the same agree in what the facts about both say. -/
theorem of_decides {p q : Prop} {fact : α → Work → Prop} {fact' : β → Work → Prop}
    (hx : Decides x committed before p fact) (hy : Decides y committed' before' q fact') (hpq : p ↔ q)
    (h : ∀ a after b after', fact a after → fact' b after' → related a after b after') :
    Agrees x y committed committed' before before' related where
  forth hr := by
    obtain ⟨hp, hfact⟩ := hx.needed hr
    obtain ⟨b, after', hb⟩ := hy.enough (hpq.1 hp)
    exact ⟨b, after', hb, h _ _ _ _ hfact (hy.needed hb).2⟩
  back hr := by
    obtain ⟨hq, hfact⟩ := hy.needed hr
    obtain ⟨a, after, ha⟩ := hx.enough (hpq.2 hq)
    exact ⟨a, after, ha, h _ _ _ _ (hx.needed ha).2 hfact⟩

/-- Operations that leave their works alone agree where a map leads from the results of the one to those
of the other. -/
theorem of_reads {p : α → Prop} {q : β → Prop} {f : α → β} (hf : Function.Surjective f)
    (hx : ∀ {a after}, Returns x committed before a after ↔ p a ∧ before = after)
    (hy : ∀ {b after'}, Returns y committed' before' b after' ↔ q b ∧ before' = after')
    (hpq : ∀ a, q (f a) ↔ p a) (h : ∀ a, related a before (f a) before') :
    Agrees x y committed committed' before before' related where
  forth hr := by
    obtain ⟨hp, rfl⟩ := hx.1 hr
    exact ⟨_, before', hy.2 ⟨(hpq _).2 hp, rfl⟩, h _⟩
  back {b after'} hr := by
    obtain ⟨hq, rfl⟩ := hy.1 hr
    obtain ⟨a, rfl⟩ := hf b
    exact ⟨a, before, hx.2 ⟨(hpq a).1 hq, rfl⟩, h a⟩

/-- Steps without effect agree where their results are related. -/
theorem ofExcept {ε ε' : Type} {wrap : ε → EngineError} {wrap' : ε' → EngineError} {a : α} {b : β}
    {found : Except ε α} {found' : Except ε' β} (ha : found = .ok a) (hb : found' = .ok b)
    (h : related a before b before') :
    Agrees (ofExcept wrap found) (ofExcept wrap' found') committed committed' before before'
      related := by
  rw [ha, hb]
  exact .pure h

/-- Lists of operations agree where corresponding ones keep a relation between the works. -/
theorem mapM {f : α → Operation γ} {g : β → Operation δ} {pair : α → β → Prop}
    {known : Work → Work → Prop} {as : List α} {bs : List β} (hp : List.Forall₂ pair as bs)
    (hstart : known before before')
    (hstep : ∀ a b middle middle', pair a b → known middle middle' →
      Agrees (f a) (g b) committed committed' middle middle' fun _ after _ after' =>
        known after after') :
    Agrees (as.mapM f) (bs.mapM g) committed committed' before before' fun _ after _ after' =>
      known after after' := by
  induction hp generalizing before before' with
  | nil =>
      rw [List.mapM_nil, List.mapM_nil]
      exact .pure hstart
  | @cons a b as bs head _ ih =>
      rw [List.mapM_cons, List.mapM_cons]
      refine (hstep a b before before' head hstart).bind fun _ middle _ middle' hknown => ?_
      exact (ih hknown).bind fun _ _ _ _ hafter => .pure hafter

/-- The same operations one after another agree where each keeps a relation between the works. -/
theorem forM {f : α → Operation PUnit} {known : Work → Work → Prop} {as : List α}
    (hstart : known before before')
    (hstep : ∀ a ∈ as, ∀ middle middle', known middle middle' →
      Agrees (f a) (f a) committed committed' middle middle' fun _ after _ after' =>
        known after after') :
    Agrees (as.forM f) (as.forM f) committed committed' before before' fun _ after _ after' =>
      known after after' := by
  induction as generalizing before before' with
  | nil => exact .pure hstart
  | cons a as ih =>
      rw [List.forM_eq_forM, List.forM_cons] at *
      refine (hstep a (by simp) before before' hstart).bind fun _ middle _ middle' hknown => ?_
      exact ih hknown fun other hother => hstep other (by simp [hother])

end Agrees

end ContentStore.Operation

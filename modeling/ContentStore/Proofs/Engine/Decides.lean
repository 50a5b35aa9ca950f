import ContentStore.Proofs.Engine.Returns
import ContentStore.Proofs.Values

/-!
# When an operation succeeds

An operation is described by a condition under which it succeeds and outside of which it fails, together
with what holds of its result. A sequence of steps succeeds where the conditions of all its steps hold.
-/

namespace ContentStore.Operation

variable {α β : Type} {committed : Tables} {before : Work}

/-- From the work before, an operation succeeds exactly under a condition, and a fact holds of what it
returns and of the work that it leaves. -/
structure Decides (operation : Operation α) (committed : Tables) (before : Work) (condition : Prop)
    (fact : α → Work → Prop) : Prop where
  enough : condition → ∃ a after, Returns operation committed before a after
  needed : ∀ {a after}, Returns operation committed before a after → condition ∧ fact a after

namespace Decides

variable {p q : Prop} {fact fact' : α → Work → Prop}

theorem mono {operation : Operation α} (h : Decides operation committed before p fact) (hp : p ↔ q)
    (hf : ∀ a after, fact a after → fact' a after) : Decides operation committed before q fact' where
  enough hq := h.enough (hp.2 hq)
  needed hr := by
    obtain ⟨hcondition, hfact⟩ := h.needed hr
    exact ⟨hp.1 hcondition, hf _ _ hfact⟩

theorem pure {a : α} (h : fact a before) : Decides (Pure.pure a) committed before True fact where
  enough _ := ⟨a, before, returns_pure.2 ⟨rfl, rfl⟩⟩
  needed hr := by
    obtain ⟨rfl, rfl⟩ := returns_pure.1 hr
    exact ⟨trivial, h⟩

theorem bind {x : Operation α} {f : α → Operation β} {fact' : β → Work → Prop}
    (hx : Decides x committed before p fact)
    (hf : ∀ a middle, fact a middle → Decides (f a) committed middle q fact') :
    Decides (x >>= f) committed before (p ∧ q) fact' where
  enough h := by
    obtain ⟨a, middle, ha⟩ := hx.enough h.1
    obtain ⟨b, after, hb⟩ := (hf a middle (hx.needed ha).2).enough h.2
    exact ⟨b, after, returns_bind.2 ⟨a, middle, ha, hb⟩⟩
  needed hr := by
    obtain ⟨a, middle, ha, hb⟩ := returns_bind.1 hr
    obtain ⟨hp, hfact⟩ := hx.needed ha
    obtain ⟨hq, hfact'⟩ := (hf a middle hfact).needed hb
    exact ⟨⟨hp, hq⟩, hfact'⟩

/-- A step that always succeeds adds nothing to the condition. -/
theorem after {x : Operation α} {f : α → Operation β} {fact' : β → Work → Prop}
    (hx : Decides x committed before True fact)
    (hf : ∀ a middle, fact a middle → Decides (f a) committed middle q fact') :
    Decides (x >>= f) committed before q fact' :=
  (hx.bind hf).mono (by simp) fun _ _ h => h

/-- An answer made from the result of the last step adds nothing to the condition. -/
theorem answer {x : Operation α} {g : α → β} {fact' : β → Work → Prop}
    (hx : Decides x committed before p fact) (hg : ∀ a after, fact a after → fact' (g a) after) :
    Decides (x >>= fun a => Pure.pure (g a)) committed before p fact' :=
  (hx.bind fun a after h => Decides.pure (hg a after h)).mono (by simp) fun _ _ h => h

/-- A list of operations succeeds where each of them does. What is known when one begins may depend on the
ones before and on what they returned. -/
theorem mapM {f : α → Operation β} {p : α → Prop} {as : List α}
    (known : List α → List β → Work → Prop) (hstart : known [] [] before)
    (hstep : ∀ done a rest bs middle, as = done ++ a :: rest → known done bs middle →
      Decides (f a) committed middle (p a) fun b after => known (done ++ [a]) (bs ++ [b]) after) :
    Decides (as.mapM f) committed before (∀ a ∈ as, p a) (known as) := by
  -- The induction is on the operations to come; what the ones before returned is generalized.
  have hrest : ∀ rest done bs middle, as = done ++ rest → known done bs middle →
      Decides (rest.mapM f) committed middle (∀ a ∈ rest, p a)
        fun others after => known as (bs ++ others) after := by
    intro rest
    induction rest with
    | nil =>
        intro done bs middle hsplit hknown
        have hdone : as = done := by simpa using hsplit
        rw [List.mapM_nil]
        refine (Decides.pure ?_).mono (by simp) fun _ _ h => h
        simpa [hdone] using hknown
    | cons a rest ih =>
        intro done bs middle hsplit hknown
        rw [List.mapM_cons, List.forall_mem_cons]
        refine (hstep done a rest bs middle hsplit hknown).bind fun b next hnext => ?_
        have hothers := ih (done ++ [a]) (bs ++ [b]) next (by simp [hsplit]) hnext
        exact hothers.answer fun others last hlast => by simpa using hlast
  simpa using hrest as [] [] before rfl hstart

/-- Operations on entries under distinct ids, each of which makes an entity with its id. No entity made
before has the id of the next one. -/
theorem mapM_zip {γ : Type} {f : α → β → Operation γ} {p : β → Prop} {as : List α} {bs : List β}
    (key : γ → α) (known : List (α × β) → List γ → Work → Prop) (hl : as.length = bs.length)
    (hn : as.Nodup) (hstart : known [] [] before)
    (hstep : ∀ {place : Nat} {a b done made middle}, as[place]? = some a → bs[place]? = some b →
      a ∉ made.map key → known done made middle →
      Decides (f a b) committed middle (p b) fun c after =>
        key c = a ∧ known (done ++ [(a, b)]) (made ++ [c]) after) :
    Decides ((as.zip bs).mapM fun (a, b) => f a b) committed before (∀ b ∈ bs, p b)
      (known (as.zip bs)) := by
  rw [← forall_mem_zip_iff hl]
  refine (mapM (fun done made after => made.map key = done.map Prod.fst ∧ known done made after)
    ⟨rfl, hstart⟩ ?_).mono Iff.rfl fun _ _ h => h.2
  rintro done ⟨a, b⟩ rest made middle hsplit ⟨hdone, hknown⟩
  have hget : (as.zip bs)[done.length]? = some (a, b) := by simp [hsplit]
  obtain ⟨ha, hb⟩ := List.getElem?_zip_eq_some.1 hget
  have hfree : a ∉ made.map key := by
    rw [hdone]
    exact not_mem_of_zip_eq hl hn hsplit
  refine (hstep ha hb hfree hknown).mono Iff.rfl ?_
  rintro c after ⟨hkey, hafter⟩
  exact ⟨by simp [hdone, hkey], hafter⟩

end Decides

end ContentStore.Operation

import Mathlib.Data.List.Forall2

/-!
# Gathering results

Lists found in independent places are joined in order; the first failure is the failure of the whole.
-/

namespace ContentStore

variable {ε α β : Type}

def gather : List (Except ε (List α)) → Except ε (List α)
  | [] => .ok []
  | .ok here :: rest => (gather rest).map (here ++ ·)
  | .error e :: _ => .error e

@[simp] theorem gather_nil : gather ([] : List (Except ε (List α))) = .ok [] := rfl

@[simp] theorem gather_ok_cons (here : List α) (rest : List (Except ε (List α))) :
    gather (.ok here :: rest) = (gather rest).map (here ++ ·) := rfl

@[simp] theorem gather_error_cons (e : ε) (rest : List (Except ε (List α))) :
    gather (.error e :: rest) = .error e := rfl

theorem map_eq_ok_iff {f : α → β} {x : Except ε α} {b : β} :
    x.map f = .ok b ↔ ∃ a, x = .ok a ∧ f a = b := by
  cases x <;> simp [Except.map]

theorem gather_cons_eq_ok {head : Except ε (List α)} {rest : List (Except ε (List α))}
    {all : List α} : gather (head :: rest) = .ok all ↔
      ∃ here others, head = .ok here ∧ gather rest = .ok others ∧ all = here ++ others := by
  cases head with
  | error e => simp
  | ok here =>
      rw [gather_ok_cons, map_eq_ok_iff]
      simp [eq_comm]

/-- Nothing is gathered exactly where every part gives nothing. -/
theorem gather_eq_nil_iff {parts : List (Except ε (List α))} :
    gather parts = .ok [] ↔ ∀ part ∈ parts, part = .ok [] := by
  induction parts with
  | nil => simp
  | cons head rest ih =>
      rw [gather_cons_eq_ok]
      constructor
      · rintro ⟨here, others, rfl, hr, he⟩
        obtain ⟨rfl, rfl⟩ := List.append_eq_nil_iff.1 he.symm
        simpa using ih.1 hr
      · intro h
        exact ⟨[], [], h head (by simp), ih.2 fun part hp => h part (by simp [hp]), rfl⟩

/-- Where every part gives something, all of it is gathered. -/
theorem exists_gather {parts : List (Except ε (List α))}
    (h : ∀ part ∈ parts, ∃ here, part = .ok here) : ∃ all, gather parts = .ok all := by
  induction parts with
  | nil => exact ⟨[], rfl⟩
  | cons head rest ih =>
      obtain ⟨here, rfl⟩ := h head (by simp)
      obtain ⟨others, hothers⟩ := ih fun part hp => h part (by simp [hp])
      exact ⟨here ++ others, by simp [hothers, Except.map]⟩

theorem exists_of_gather {parts : List (Except ε (List α))} {all : List α}
    (h : gather parts = .ok all) {part : Except ε (List α)} (hp : part ∈ parts) :
    ∃ here, part = .ok here := by
  induction parts generalizing all with
  | nil => cases hp
  | cons head rest ih =>
      obtain ⟨here, others, rfl, hothers, rfl⟩ := gather_cons_eq_ok.1 h
      rcases List.mem_cons.1 hp with rfl | hp
      · exact ⟨here, rfl⟩
      · exact ih hothers hp

theorem mem_gather_iff {parts : List β} {f : β → Except ε (List α)} {all : List α}
    (h : gather (parts.map f) = .ok all) {a : α} :
    a ∈ all ↔ ∃ part ∈ parts, ∃ here, f part = .ok here ∧ a ∈ here := by
  induction parts generalizing all with
  | nil =>
      cases h
      simp
  | cons part rest ih =>
      obtain ⟨here, others, hhere, hothers, rfl⟩ := gather_cons_eq_ok.1 h
      rw [List.mem_append, List.exists_mem_cons_iff, ih hothers]
      apply or_congr_left
      constructor
      · intro ha
        exact ⟨here, hhere, ha⟩
      · rintro ⟨found, hfound, ha⟩
        cases hhere.symm.trans hfound
        exact ha

/-- What holds of everything that each part gives holds of everything gathered. -/
theorem gather_forall {p : α → Prop} {parts : List (Except ε (List α))} {all : List α}
    (hg : gather parts = .ok all)
    (h : ∀ part ∈ parts, ∀ here, part = .ok here → ∀ a ∈ here, p a) : ∀ a ∈ all, p a := by
  induction parts generalizing all with
  | nil =>
      cases hg
      simp
  | cons head rest ih =>
      obtain ⟨here, others, hhead, hrest, rfl⟩ := gather_cons_eq_ok.1 hg
      intro a ha
      rcases List.mem_append.1 ha with ha | ha
      · exact h head (by simp) here hhead a ha
      · exact ih hrest (fun part hp => h part (by simp [hp])) a ha

/-- A relation between the results of parts goes over to what is gathered from them. -/
theorem gather_related {r : α → β → Prop} {parts : List (Except ε (List α))}
    {others : List (Except ε (List β))}
    (h : List.Forall₂ (fun part other => ∀ found, part = .ok found →
      ∃ found', other = .ok found' ∧ List.Forall₂ r found found') parts others)
    {found : List α} (hg : gather parts = .ok found) :
    ∃ found', gather others = .ok found' ∧ List.Forall₂ r found found' := by
  induction h generalizing found with
  | nil =>
      cases hg
      exact ⟨[], rfl, .nil⟩
  | cons hhead _ ih =>
      obtain ⟨here, rest, hh, hr, rfl⟩ := gather_cons_eq_ok.1 hg
      obtain ⟨here', hh', hrel⟩ := hhead here hh
      obtain ⟨rest', hr', hrels⟩ := ih hr
      exact ⟨here' ++ rest', gather_cons_eq_ok.2 ⟨here', rest', hh', hr', rfl⟩,
        List.rel_append hrel hrels⟩

/-- A relation between gathered lists holds part by part, where the parts are of equal length. -/
theorem forall₂_of_gather {r : α → β → Prop} {parts : List (Except ε (List α))}
    {others : List (Except ε (List β))}
    (hlength : List.Forall₂ (fun part other => ∀ here here', part = .ok here → other = .ok here' →
      here.length = here'.length) parts others) {found : List α} {found' : List β}
    (hg : gather parts = .ok found) (hg' : gather others = .ok found')
    (h : List.Forall₂ r found found') :
    List.Forall₂ (fun part other => ∃ here here', part = .ok here ∧ other = .ok here' ∧
      List.Forall₂ r here here') parts others := by
  induction hlength generalizing found found' with
  | nil => exact .nil
  | cons hhead _ ih =>
      obtain ⟨here, rest, hh, hr, rfl⟩ := gather_cons_eq_ok.1 hg
      obtain ⟨here', rest', hh', hr', rfl⟩ := gather_cons_eq_ok.1 hg'
      have hsame := hhead here here' hh hh'
      have hhere := List.forall₂_take_append _ _ _ h
      have hrest := List.forall₂_drop_append _ _ _ h
      rw [← hsame, List.take_left] at hhere
      rw [← hsame, List.drop_left] at hrest
      exact .cons ⟨here, here', hh, hh', hhere⟩ (ih hr hr' hrest)

/-- An order between parts and within each of them goes over to what is gathered from them. -/
theorem gather_pairwise {r : α → α → Prop} {parts : List β} {f : β → Except ε (List α)} {all : List α}
    (hg : gather (parts.map f) = .ok all)
    (hwithin : ∀ part ∈ parts, ∀ here, f part = .ok here → here.Pairwise r)
    (hbetween : parts.Pairwise fun part other => ∀ here there, f part = .ok here → f other = .ok there →
      ∀ a ∈ here, ∀ b ∈ there, r a b) : all.Pairwise r := by
  induction parts generalizing all with
  | nil =>
      cases hg
      exact .nil
  | cons part rest ih =>
      obtain ⟨here, others, hhere, hothers, rfl⟩ := gather_cons_eq_ok.1 hg
      obtain ⟨hfirst, hrest⟩ := List.pairwise_cons.1 hbetween
      refine List.pairwise_append.2 ⟨hwithin part (by simp) here hhere,
        ih hothers (fun other ho => hwithin other (by simp [ho])) hrest, ?_⟩
      intro a ha b hb
      obtain ⟨other, hother, there, hthere, hb⟩ := (mem_gather_iff hothers).1 hb
      exact hfirst other hother here there hhere hthere a ha b hb

/-- What is gathered of one kind comes from the one part that gives it. -/
theorem gather_filter {p : α → Bool} {κ : Type} (key : β → κ) {parts : List β}
    {f : β → Except ε (List α)} {all here : List α} {part : β} (hg : gather (parts.map f) = .ok all)
    (hn : (parts.map key).Nodup) (hp : part ∈ parts) (hhere : f part = .ok here)
    (hother : ∀ other ∈ parts, key other ≠ key part → ∀ there, f other = .ok there →
      there.filter p = []) : all.filter p = here.filter p := by
  induction parts generalizing all with
  | nil => cases hp
  | cons first rest ih =>
      obtain ⟨head, others, hhead, hothers, rfl⟩ := gather_cons_eq_ok.1 hg
      obtain ⟨hfirst, hrest⟩ := List.nodup_cons.1 hn
      rw [List.filter_append]
      rcases List.mem_cons.1 hp with rfl | hp
      · cases hhere.symm.trans hhead
        have hnone : ∀ a ∈ others, ¬ p a = true := by
          intro a ha
          obtain ⟨other, hmem, there, hthere, ha⟩ := (mem_gather_iff hothers).1 ha
          have hne : key other ≠ key part := fun he => hfirst (he ▸ List.mem_map_of_mem hmem)
          exact List.filter_eq_nil_iff.1 (hother other (by simp [hmem]) hne there hthere) a ha
        rw [List.filter_eq_nil_iff.2 hnone, List.append_nil]
      · have hne : key first ≠ key part := fun he => hfirst (he ▸ List.mem_map_of_mem hp)
        rw [hother first (by simp) hne head hhead, List.nil_append]
        exact ih hothers hrest hp fun other ho => hother other (by simp [ho])

/-! ### How results end -/

/-- How a result ended, whatever it holds. -/
def outcome (x : Except ε α) : Except ε Unit :=
  x.map fun _ => ()

@[simp] theorem outcome_ok (a : α) : outcome (.ok a : Except ε α) = .ok () := rfl

@[simp] theorem outcome_error (e : ε) : outcome (.error e : Except ε α) = .error e := rfl

@[simp] theorem outcome_map (x : Except ε α) (f : α → β) : outcome (x.map f) = outcome x := by
  cases x <;> rfl

theorem exists_of_outcome {x : Except ε α} (h : outcome x = .ok ()) : ∃ a, x = .ok a := by
  cases x with
  | ok a => exact ⟨a, rfl⟩
  | error e => cases h

/-- Where a continuation always ends in one way, the first part decides how both end together. -/
theorem outcome_bind {x : Except ε α} {f : α → Except ε β} {ending : Except ε Unit}
    (h : ∀ a, outcome (f a) = ending) : outcome (x.bind f) = (outcome x).bind fun _ => ending := by
  cases x with
  | ok a => exact h a
  | error e => rfl

theorem gather_cons_eq_bind (part : Except ε (List α)) (rest : List (Except ε (List α))) :
    gather (part :: rest) = part.bind fun here => (gather rest).map (here ++ ·) := by
  cases part <;> rfl

end ContentStore

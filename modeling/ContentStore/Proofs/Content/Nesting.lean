import ContentStore.Content.Depth
import Mathlib.Algebra.GroupWithZero.Nat
import Mathlib.Logic.Relation
import Mathlib.Order.Bounds.Basic

/-!
# How deep values are nested

A part of a value lies as many steps below it as there are items and members on the way to it. The walk
that bounds these steps is a search that may take its pending parts in any order: it always ends, and its
answer is the same in all of them.
-/

namespace ContentStore.Json

/-! ### Depth and number of parts -/

theorem depthOfItems_add_le_iff (items : List Json) (above bound : Nat) :
    depthOfItems items + above ≤ bound ↔
      above ≤ bound ∧ ∀ item ∈ items, item.depth + (above + 1) ≤ bound := by
  induction items with
  | nil => simp [depthOfItems]
  | cons item rest ih =>
      rw [List.forall_mem_cons, and_left_comm, ← ih, depthOfItems]
      omega

theorem depthOfMembers_eq (members : List (String × Json)) :
    depthOfMembers members = depthOfItems (members.map Prod.snd) := by
  induction members with
  | nil => rfl
  | cons member rest ih => simp only [depthOfMembers, List.map_cons, depthOfItems, ih]

/-- A value keeps within a bound, counted from further above, when all that is directly inside it does. -/
theorem depth_add_le_iff (value : Json) (above bound : Nat) :
    value.depth + above ≤ bound ↔
      above ≤ bound ∧ ∀ child ∈ value.children, child.depth + (above + 1) ≤ bound := by
  cases value with
  | array items => exact depthOfItems_add_le_iff items above bound
  | object members =>
      rw [depth, depthOfMembers_eq]
      exact depthOfItems_add_le_iff (members.map Prod.snd) above bound
  | _ => simp [depth, children]

theorem itemPartCount_eq (items : List Json) :
    itemPartCount items = (items.map fun item => item.partCount).sum := by
  induction items with
  | nil => rfl
  | cons item rest ih => simp only [itemPartCount, List.map_cons, List.sum_cons, ih]

theorem memberPartCount_eq (members : List (String × Json)) :
    memberPartCount members = itemPartCount (members.map Prod.snd) := by
  induction members with
  | nil => rfl
  | cons member rest ih => simp only [memberPartCount, List.map_cons, itemPartCount, ih]

theorem partCount_eq (value : Json) :
    value.partCount = 1 + (value.children.map fun child => child.partCount).sum := by
  cases value with
  | array items => rw [partCount, itemPartCount_eq, children]
  | object members => rw [partCount, memberPartCount_eq, itemPartCount_eq, children]
  | _ => rfl

/-- The depth of a value that is not flat comes from one of the parts directly inside. -/
theorem exists_child_of_depth_eq {value : Json} {n : Nat} (h : value.depth = n + 1) :
    ∃ child ∈ value.children, child.depth = n := by
  have hnot : ¬ ∀ child ∈ value.children, child.depth + (0 + 1) ≤ n := by
    intro hall
    have hle := (depth_add_le_iff value 0 n).2 ⟨Nat.zero_le n, hall⟩
    omega
  push Not at hnot
  obtain ⟨child, hmem, hlt⟩ := hnot
  have hle := ((depth_add_le_iff value 0 (n + 1)).1 (by omega)).2 child hmem
  exact ⟨child, hmem, by omega⟩

/-! ### Parts -/

/-- A part of a value, the value itself and scalars included, and the number of steps that lead to it, each
one into an item of an array or into a member of an object. -/
inductive HasPart (value : Json) : Nat → Json → Prop
  | self : HasPart value 0 value
  | item {steps : Nat} {items : List Json} {item : Json} (held : HasPart value steps (.array items))
      (inside : item ∈ items) : HasPart value (steps + 1) item
  | member {steps : Nat} {members : List (String × Json)} {key : String} {inner : Json}
      (held : HasPart value steps (.object members)) (inside : (key, inner) ∈ members) :
      HasPart value (steps + 1) inner

namespace HasPart

variable {value part : Json} {steps : Nat}

theorem child {inner : Json} (held : value.HasPart steps part) (inside : inner ∈ part.children) :
    value.HasPart (steps + 1) inner := by
  cases part with
  | array items => exact .item held inside
  | object members =>
      obtain ⟨⟨key, _⟩, hmem, rfl⟩ := List.mem_map.1 inside
      exact .member held hmem
  | _ => cases inside

theorem depth_add_le (held : value.HasPart steps part) : part.depth + steps ≤ value.depth := by
  induction held with
  | self => exact Nat.le_refl _
  | item _ inside ih => exact ((depth_add_le_iff _ _ _).1 ih).2 _ inside
  | member _ inside ih => exact ((depth_add_le_iff _ _ _).1 ih).2 _ (List.mem_map_of_mem inside)

theorem exists_deepest (held : value.HasPart steps part) :
    ∃ deepest, value.HasPart (steps + part.depth) deepest := by
  -- The induction is on how much deeper the parts go, and moves on to a child that goes deepest.
  induction hn : part.depth generalizing steps part with
  | zero => exact ⟨part, held⟩
  | succ n ih =>
      obtain ⟨child, hmem, hdepth⟩ := exists_child_of_depth_eq hn
      obtain ⟨deepest, hdeepest⟩ := ih (held.child hmem) hdepth
      exact ⟨deepest, by rwa [Nat.add_assoc, Nat.add_comm 1] at hdeepest⟩

end HasPart

/-- The depth of a value is the greatest number of steps to a part of it. -/
theorem isGreatest_depth (value : Json) :
    IsGreatest {steps | ∃ part, value.HasPart steps part} value.depth := by
  constructor
  · have hself : value.HasPart 0 value := .self
    obtain ⟨deepest, hdeepest⟩ := hself.exists_deepest
    exact ⟨deepest, by rwa [Nat.zero_add] at hdeepest⟩
  · rintro steps ⟨part, held⟩
    exact Nat.le_of_add_left_le held.depth_add_le

theorem depth_le_iff {value : Json} {bound : Nat} :
    value.depth ≤ bound ↔ ∀ steps part, value.HasPart steps part → steps ≤ bound := by
  rw [isLUB_le_iff value.isGreatest_depth.isLUB]
  exact ⟨fun h steps part held => h ⟨part, held⟩, fun h steps ⟨part, held⟩ => h steps part held⟩

/-! ### Searching in any order -/

/-- Where a search stands: with parts to look at, each with the number of steps to it, or with its answer. -/
inductive Search where
  | pending (parts : List (Json × Nat))
  | answered (fits : Bool)

namespace Search

/-- One step of a search. Any pending part may be taken, and what is directly inside it may be put anywhere
among the others. -/
inductive Step (bound : Nat) : Search → Search → Prop
  | finish : Step bound (.pending []) (.answered true)
  | tooDeep {parts : List (Json × Nat)} {part : Json} {above : Nat} (taken : (part, above) ∈ parts)
      (deeper : bound < above) : Step bound (.pending parts) (.answered false)
  | look {parts rest next : List (Json × Nat)} {part : Json} {above : Nat}
      (taken : parts.Perm ((part, above) :: rest)) (within : above ≤ bound)
      (added : next.Perm ((part.children.map fun child => (child, above + 1)) ++ rest)) :
      Step bound (.pending parts) (.pending next)

def Within (bound : Nat) : Search → Prop
  | .pending parts => ∀ part ∈ parts, part.1.depth + part.2 ≤ bound
  | .answered fits => fits = true

def remaining : Search → Nat
  | .pending parts => 1 + (parts.map fun part => part.1.partCount).sum
  | .answered _ => 0

variable {bound : Nat} {before after : Search}

theorem Step.within_iff (h : Step bound before after) : before.Within bound ↔ after.Within bound := by
  cases h with
  | finish => simp [Within]
  | @tooDeep parts part above taken deeper =>
      have hnot : ¬ Within bound (.pending parts) := fun hall => by
        have hle : part.depth + above ≤ bound := hall _ taken
        omega
      exact iff_of_false hnot Bool.false_ne_true
  | @look parts rest next part above taken within added =>
      have hpart := depth_add_le_iff part above bound
      simp only [within, true_and] at hpart
      simp only [Within, taken.mem_iff, added.mem_iff, List.forall_mem_cons, List.forall_mem_append,
        List.forall_mem_map, hpart]

/-- No order changes whether all is within the bound. -/
theorem within_iff_of_run (h : Relation.ReflTransGen (Step bound) before after) :
    before.Within bound ↔ after.Within bound := by
  induction h with
  | refl => rfl
  | tail _ hstep ih => exact ih.trans hstep.within_iff

theorem Step.remaining_lt (h : Step bound before after) : after.remaining < before.remaining := by
  cases h with
  | finish => exact Nat.succ_pos _
  | tooDeep _ _ => simp only [remaining]; omega
  | @look parts rest next part above taken within added =>
      have hcount := partCount_eq part
      have hbefore := (taken.map fun part => part.1.partCount).sum_nat
      have hafter := (added.map fun part => part.1.partCount).sum_nat
      simp only [List.map_cons, List.sum_cons] at hbefore
      simp only [List.map_append, List.map_map, Function.comp_def, List.sum_append] at hafter
      simp only [remaining]
      omega

/-- There is no order in which a search goes on for ever. -/
theorem wellFounded_step (bound : Nat) : WellFounded fun after before => Step bound before after :=
  Subrelation.wf (fun h => h.remaining_lt) (measure remaining).wf

/-- A search that has parts left can go on. -/
theorem exists_step (bound : Nat) (parts : List (Json × Nat)) : ∃ next, Step bound (.pending parts) next := by
  cases parts with
  | nil => exact ⟨_, .finish⟩
  | cons first rest =>
      by_cases hlt : bound < first.2
      · exact ⟨_, .tooDeep List.mem_cons_self hlt⟩
      · exact ⟨_, .look (.refl _) (Nat.le_of_not_lt hlt) (.refl _)⟩

end Search

/-! ### The walk -/

/-- The walk is the search that takes the part added last. The steps that are left always suffice for the
parts that are pending. -/
theorem drain_reached {bound steps : Nat} {pending : List (Json × Nat)}
    (enough : (pending.map fun part => part.1.partCount).sum ≤ steps) :
    Relation.ReflTransGen (Search.Step bound) (.pending pending)
      (.answered (drain bound steps pending)) := by
  induction steps generalizing pending with
  | zero =>
      cases pending with
      | nil => exact .single .finish
      | cons first rest =>
          have hcount := partCount_eq first.1
          simp only [List.map_cons, List.sum_cons] at enough
          omega
  | succ steps ih =>
      cases pending with
      | nil => exact .single .finish
      | cons first rest =>
          obtain ⟨value, above⟩ := first
          rw [drain]
          split
          next hlt => exact .single (.tooDeep List.mem_cons_self hlt)
          next hlt =>
            have hcount := partCount_eq value
            have hadded := ((List.reverse_perm value.children).map fun child =>
              (child, above + 1)).append_right rest
            refine .head (.look (.refl _) (Nat.le_of_not_lt hlt) hadded) (ih ?_)
            simp only [List.map_cons, List.sum_cons, hcount] at enough
            simp only [List.map_append, List.map_map, List.sum_append, Function.comp_def,
              List.map_reverse, List.sum_reverse]
            omega

theorem fitsDepth_reached (bound : Nat) (value : Json) :
    Relation.ReflTransGen (Search.Step bound) (.pending [(value, 0)])
      (.answered (fitsDepth bound value)) :=
  drain_reached (by simp)

theorem fitsDepth_iff {bound : Nat} {value : Json} :
    fitsDepth bound value = true ↔ value.depth ≤ bound := by
  have hrun := Search.within_iff_of_run (fitsDepth_reached bound value)
  simp only [Search.Within, List.forall_mem_singleton, Nat.add_zero] at hrun
  exact hrun.symm

/-- From here a search ends in every order, and always with this answer. -/
structure Search.EndsWith (bound : Nat) (start : Search) (fits : Bool) : Prop where
  finite : Acc (fun after before => Step bound before after) start
  reached : Relation.ReflTransGen (Step bound) start (.answered fits)
  only : ∀ last, Relation.ReflTransGen (Step bound) start last → (∀ next, ¬ Step bound last next) →
    last = .answered fits

/-- An answer that is reached in one order is the answer of all. -/
theorem Search.endsWith_of_reached {bound : Nat} {start : Search} {fits : Bool}
    (h : Relation.ReflTransGen (Step bound) start (.answered fits)) : start.EndsWith bound fits where
  finite := (wellFounded_step bound).apply start
  reached := h
  only last hrun hlast := by
    cases last with
    | pending parts =>
        obtain ⟨next, hnext⟩ := exists_step bound parts
        exact absurd hnext (hlast next)
    | answered found =>
        have hsame : found = true ↔ fits = true := (within_iff_of_run hrun).symm.trans (within_iff_of_run h)
        rw [Bool.eq_iff_iff.2 hsame]

/-- The walk accepts exactly the values with no part, scalars included, more steps below them than the
bound. Taking the pending parts in another order, it still ends and says the same. What fits a bound fits
every greater one. -/
theorem fitsDepth_in_any_order (value : Json) :
    (∀ bound, fitsDepth bound value = true ↔
      ∀ steps part, value.HasPart steps part → steps ≤ bound) ∧
    (∀ bound, Search.EndsWith bound (.pending [(value, 0)]) (fitsDepth bound value)) ∧
    Monotone fun bound => fitsDepth bound value := by
  refine ⟨fun bound => fitsDepth_iff.trans depth_le_iff, fun bound =>
    Search.endsWith_of_reached (fitsDepth_reached bound value), ?_⟩
  intro bound wider hle hfits
  exact fitsDepth_iff.2 (le_trans (fitsDepth_iff.1 hfits) hle)

/-- Three steps lead to the null of `[{"a": [null]}, true]`. With a bound of two the search may take the
items of the outer array from left to right, and has to reject the value as well. -/
theorem fitsDepth_in_any_order_null :
    let value : Json := .array [.object [("a", .array [.null])], .bool true]
    value.HasPart 3 .null ∧ fitsDepth 2 value = false ∧ fitsDepth 3 value = true ∧
      ∀ last, Relation.ReflTransGen (Search.Step 2)
        (.pending [(.object [("a", .array [.null])], 1), (.bool true, 1)]) last →
          (∀ next, ¬ Search.Step 2 last next) → last = .answered false := by
  intro value
  obtain ⟨hparts, horder, -⟩ := fitsDepth_in_any_order value
  have hnull : value.HasPart 3 .null :=
    .item (.member (.item .self List.mem_cons_self) List.mem_cons_self) List.mem_cons_self
  have htwo : fitsDepth 2 value = false := by
    rw [Bool.eq_false_iff]
    intro hfits
    exact absurd ((hparts 2).1 hfits 3 .null hnull) (by decide)
  refine ⟨hnull, htwo, fitsDepth_iff.2 (by decide +kernel), fun last hrun hlast => ?_⟩
  have hfirst : Search.Step 2 (.pending [(value, 0)])
      (.pending [(.object [("a", .array [.null])], 1), (.bool true, 1)]) :=
    .look (.refl _) (Nat.zero_le 2) (.refl _)
  rw [(horder 2).only last (.head hfirst hrun) hlast, htwo]

end ContentStore.Json

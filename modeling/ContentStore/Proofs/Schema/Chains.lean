import Mathlib.Data.List.Perm.Subperm
import ContentStore.Proofs.Schema.Structure

/-!
# Chains of references

Following references passes from name to name and stops at a definition that is no reference, or at a
reference to a name that is not declared. Each name leads to one definition only, so that no name comes
twice on a way that stops; such a way has at most as many names as the schema, and the bound on following
references never cuts one off before its end.
-/

namespace ContentStore.Schema

variable {schema : Schema} {d middle last target : Definition} {names more : List String}

/-- Following references from a definition passes the names in turn and comes to another definition, from
which it may go on. -/
inductive Leads (schema : Schema) : Definition → List String → Definition → Prop
  | here {d : Definition} : Leads schema d [] d
  | step {name : String} {next last : Definition} {names : List String}
      (declared : schema.types.get? name = some next) (rest : Leads schema next names last) :
      Leads schema (.ref name) (name :: names) last

/-- Following references goes on from no reference, and from none to a name that is not declared. -/
def Stops (schema : Schema) (d : Definition) : Prop :=
  ∀ name, d = .ref name → schema.types.get? name = none

namespace Leads

theorem append (h : schema.Leads d names middle) (h' : schema.Leads middle more last) :
    schema.Leads d (names ++ more) last := by
  induction h with
  | here => exact h'
  | step declared _ ih => exact .step declared (ih h')

theorem of_append (h : schema.Leads d (names ++ more) last) :
    ∃ middle, schema.Leads d names middle ∧ schema.Leads middle more last := by
  induction names generalizing d with
  | nil => exact ⟨d, .here, h⟩
  | cons name names ih =>
      cases h with
      | step declared rest =>
          obtain ⟨middle, hfirst, hrest⟩ := ih rest
          exact ⟨middle, .step declared hfirst, hrest⟩

/-- From one definition there is one way: any other is a part of one that stops. -/
theorem isPrefix {others : List String} (h : schema.Leads d names last)
    (h' : schema.Leads d others target) (hs : schema.Stops target) : names <+: others := by
  induction h generalizing others with
  | here => exact List.nil_prefix
  | step declared _ ih =>
      cases h' with
      | here =>
          rw [hs _ rfl] at declared
          cases declared
      | step declared' rest' =>
          cases declared.symm.trans declared'
          exact (List.prefix_cons_inj _).2 (ih rest')

theorem nodup (h : schema.Leads d names target) (hs : schema.Stops target) : names.Nodup := by
  induction h with
  | here => exact List.nodup_nil
  | @step name next target names declared rest ih =>
      refine List.nodup_cons.2 ⟨fun hn => ?_, ih hs⟩
      -- Where the name comes again a second way from it begins, shorter than the first.
      obtain ⟨before, after, rfl⟩ := List.append_of_mem hn
      obtain ⟨again, -, hagain⟩ := rest.of_append
      cases hagain with
      | step declared' rest' =>
          have hshorter : schema.Leads (.ref name) (name :: after) target := .step declared' rest'
          have hle := (isPrefix (.step declared rest) hshorter hs).length_le
          simp only [List.length_cons, List.length_append] at hle
          omega

theorem names_declared (h : schema.Leads d names last) : names ⊆ schema.types.keys := by
  induction h with
  | here => exact List.nil_subset _
  | step declared _ ih =>
      exact List.cons_subset.2 ⟨List.mem_map_of_mem (Entries.mem_of_lookup declared), ih⟩

/-- A way on which no name comes twice has no more names than the schema. -/
theorem length_le (h : schema.Leads d names last) (hn : names.Nodup) :
    names.length ≤ schema.types.size := by
  have hle := (List.subperm_of_subset hn h.names_declared).length_le
  rwa [SortedMap.keys, List.length_map] at hle

theorem follow_eq (h : schema.Leads d names last) (steps : Nat) :
    schema.follow (names.length + steps) d = schema.follow steps last := by
  induction h with
  | here => rw [List.length_nil, Nat.zero_add]
  | step declared _ ih =>
      rw [List.length_cons, Nat.add_right_comm, follow, declared]
      exact ih

/-- The bound on following references is not reached on a way that stops. -/
theorem exists_resolve_eq (h : schema.Leads d names target) (hs : schema.Stops target) :
    ∃ left, schema.resolve d = schema.follow (left + 1) target := by
  have hle := h.length_le (h.nodup hs)
  refine ⟨schema.types.size - names.length, ?_⟩
  rw [resolve, ← h.follow_eq]
  congr 1
  omega

end Leads

/-- Following references from a definition passes the names in turn and ends at the target. -/
inductive Chain (schema : Schema) : Definition → List String → Definition → Prop
  | here {d : Definition} (concrete : ∀ name, d ≠ .ref name) : Chain schema d [] d
  | step {name : String} {next target : Definition} {names : List String}
      (declared : schema.types.get? name = some next) (rest : Chain schema next names target) :
      Chain schema (.ref name) (name :: names) target

theorem chain_iff :
    schema.Chain d names target ↔ schema.Leads d names target ∧ ∀ name, target ≠ .ref name := by
  constructor
  · intro h
    induction h with
    | here concrete => exact ⟨.here, concrete⟩
    | step declared _ ih => exact ⟨.step declared ih.1, ih.2⟩
  · rintro ⟨h, concrete⟩
    induction h with
    | here => exact .here concrete
    | step declared _ ih => exact .step declared (ih concrete)

theorem exists_leads_of_follow {steps : Nat} (h : schema.follow steps d = .ok target) :
    ∃ names, schema.Leads d names target := by
  induction steps generalizing d with
  | zero =>
      cases d with
      | ref name => cases h
      | _ =>
          cases h
          exact ⟨[], .here⟩
  | succ steps ih =>
      cases d with
      | ref name =>
          obtain ⟨next, hnext, hrest⟩ := follow_ref_eq_ok_iff.1 h
          obtain ⟨names, hnames⟩ := ih hrest
          exact ⟨name :: names, .step hnext hnames⟩
      | _ =>
          cases h
          exact ⟨[], .here⟩

/-- References are followed to a definition exactly if a chain leads there. -/
theorem resolve_eq_ok_iff :
    schema.resolve d = .ok target ↔ ∃ names, schema.Chain d names target := by
  simp only [chain_iff]
  constructor
  · intro h
    obtain ⟨names, hnames⟩ := exists_leads_of_follow h
    exact ⟨names, hnames, follow_ne_ref h⟩
  · rintro ⟨names, h, concrete⟩
    obtain ⟨left, hleft⟩ := h.exists_resolve_eq fun name hname => absurd hname (concrete name)
    rw [hleft]
    cases target with
    | ref name => exact absurd rfl (concrete name)
    | _ => rfl

/-- A definition is sound if from every reference inside it a chain leads to a definition. -/
theorem sound_iff :
    schema.Sound d ↔
      ∀ name, .ref name ∈ d.nodes → ∃ names target, schema.Chain (.ref name) names target := by
  constructor
  · intro h name hn
    obtain ⟨target, htarget⟩ := h _ hn
    obtain ⟨names, hnames⟩ := resolve_eq_ok_iff.1 htarget
    exact ⟨names, target, hnames⟩
  · intro h node hn
    cases node with
    | ref name =>
        obtain ⟨names, target, hnames⟩ := h name hn
        exact ⟨target, resolve_eq_ok_iff.2 ⟨names, hnames⟩⟩
    | _ => exact ⟨_, rfl⟩

end ContentStore.Schema

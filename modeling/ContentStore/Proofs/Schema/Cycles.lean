import ContentStore.Proofs.Schema.Chains

/-!
# What following references comes to

Following references from a definition comes to a definition that is no reference, or to a name that is
not declared, or it comes to a name for the second time and never ends. The bound on the number of steps
tells these apart: a way that ends passes each declared name at most once, and one that is longer than
that has passed a name twice.
-/

namespace ContentStore.Schema

variable {schema : Schema} {d last target : Definition} {names cycle : List String} {name : String}

/-! ### Where following references fails -/

/-- Following references fails at a name that is not declared, or when it has taken all its steps. -/
theorem follow_error_cases {steps : Nat} {e : StructureError} (h : schema.follow steps d = .error e) :
    ∃ names name, schema.Leads d names (.ref name) ∧
      (e = .unknownRef name ∧ schema.types.get? name = none ∨
        e = .refCycle name ∧ names.length = steps) := by
  induction steps generalizing d with
  | zero =>
      cases d with
      | ref name =>
          cases h
          exact ⟨[], name, .here, .inr ⟨rfl, rfl⟩⟩
      | _ => cases h
  | succ steps ih =>
      cases d with
      | ref name =>
          rw [follow] at h
          cases hnext : schema.types.get? name with
          | none =>
              rw [hnext] at h
              cases h
              exact ⟨[], name, .here, .inl ⟨rfl, hnext⟩⟩
          | some next =>
              rw [hnext] at h
              obtain ⟨names, found, hleads, hcases⟩ := ih h
              refine ⟨name :: names, found, .step hnext hleads, hcases.imp_right ?_⟩
              rintro ⟨rfl, hlength⟩
              exact ⟨rfl, congrArg (· + 1) hlength⟩
      | _ => cases h

theorem stops_ref (h : schema.types.get? name = none) : schema.Stops (.ref name) := by
  intro other hother
  cases hother
  exact h

theorem resolve_eq_unknownRef_iff :
    schema.resolve d = .error (.unknownRef name) ↔
      ∃ names, schema.Leads d names (.ref name) ∧ schema.types.get? name = none := by
  constructor
  · intro h
    obtain ⟨names, found, hleads, ⟨he, hnone⟩ | ⟨he, -⟩⟩ := follow_error_cases h
    · cases he
      exact ⟨names, hleads, hnone⟩
    · cases he
  · rintro ⟨names, hleads, hnone⟩
    obtain ⟨left, hleft⟩ := hleads.exists_resolve_eq (stops_ref hnone)
    rw [hleft, follow, hnone]

/-- If one way from a definition stops, no way from it passes a name twice. -/
theorem Leads.nodup_of_stops {others : List String} (h : schema.Leads d names last)
    (h' : schema.Leads d others target) (hs : schema.Stops target) : names.Nodup :=
  (h'.nodup hs).sublist (h.isPrefix h' hs).sublist

/-- When all steps are taken, more names have been passed than there are. -/
theorem exists_leads_of_refCycle (h : schema.resolve d = .error (.refCycle name)) :
    ∃ names, schema.Leads d names (.ref name) ∧ ¬ names.Nodup := by
  obtain ⟨names, found, hleads, ⟨he, -⟩ | ⟨he, hlength⟩⟩ := follow_error_cases h
  · cases he
  · cases he
    refine ⟨names, hleads, fun hn => ?_⟩
    have hle := hleads.length_le hn
    omega

theorem resolve_eq_refCycle_iff :
    (∃ name, schema.resolve d = .error (.refCycle name)) ↔
      ∃ names last, schema.Leads d names last ∧ ¬ names.Nodup := by
  constructor
  · rintro ⟨name, h⟩
    obtain ⟨names, hleads, hn⟩ := exists_leads_of_refCycle h
    exact ⟨names, _, hleads, hn⟩
  · rintro ⟨names, last, hleads, hn⟩
    cases hr : schema.resolve d with
    | ok target =>
        obtain ⟨others, hchain⟩ := resolve_eq_ok_iff.1 hr
        obtain ⟨hothers, hconcrete⟩ := chain_iff.1 hchain
        have hstops : schema.Stops target := fun name hname => absurd hname (hconcrete name)
        exact absurd (hleads.nodup_of_stops hothers hstops) hn
    | error e =>
        obtain ⟨others, found, hothers, ⟨-, hnone⟩ | ⟨rfl, -⟩⟩ := follow_error_cases hr
        · exact absurd (hleads.nodup_of_stops hothers (stops_ref hnone)) hn
        · exact ⟨found, rfl⟩

/-! ### Going around -/

/-- What a way from a definition on a cycle comes to is on a cycle too. -/
theorem Leads.exists_around (h : schema.Leads d names last) (hc : schema.Leads d cycle d)
    (hne : cycle ≠ []) : ∃ around, around ≠ [] ∧ schema.Leads last around last := by
  induction h generalizing cycle with
  | here => exact ⟨cycle, hne, hc⟩
  | step declared _ ih =>
      cases hc with
      | here => exact absurd rfl hne
      | step declared' rest =>
          cases declared.symm.trans declared'
          exact ih (rest.append (.step declared .here)) (by simp)

/-- A way that passes a name twice comes to a definition on a cycle. -/
theorem Leads.exists_cycle (h : schema.Leads d names last) (hn : ¬ names.Nodup) :
    ∃ cycle, cycle ≠ [] ∧ schema.Leads last cycle last := by
  induction h with
  | here => exact absurd List.nodup_nil hn
  | @step name next last names declared rest ih =>
      by_cases hmem : name ∈ names
      · obtain ⟨before, after, rfl⟩ := List.append_of_mem hmem
        obtain ⟨again, hbefore, hafter⟩ := rest.of_append
        obtain rfl : again = .ref name := by
          cases hafter
          rfl
        exact hafter.exists_around (.step declared hbefore) (by simp)
      · exact ih fun hrest => hn (List.nodup_cons.2 ⟨hmem, hrest⟩)

/-- A way that comes to a cycle can be followed until it passes a name twice. -/
theorem Leads.exists_not_nodup (h : schema.Leads d names last) (hc : schema.Leads last cycle last)
    (hne : cycle ≠ []) : ∃ passed target, schema.Leads d passed target ∧ ¬ passed.Nodup := by
  cases hc with
  | here => exact absurd rfl hne
  | @step name next _ rest declared hrest =>
      have honce := (h.append (.step declared hrest)).append (.step declared .here)
      refine ⟨_, next, honce, fun hn => ?_⟩
      have happart := (List.nodup_append.1 hn).2.2
      exact happart name (by simp) name (by simp) rfl

/-- A way that has passed every declared name stops where it comes to none of them again. -/
theorem stops_of_perm (h : names.Perm schema.types.keys) (hl : ∀ name ∈ names, last ≠ .ref name) :
    schema.Stops last := by
  intro name hname
  cases hget : schema.types.get? name with
  | none => rfl
  | some next =>
      have hkey : name ∈ schema.types.keys := List.mem_map_of_mem (Entries.mem_of_lookup hget)
      exact absurd hname (hl name (h.mem_iff.2 hkey))

/-- Following references from a definition gives the definition that a chain leads to, if there is one; it
fails with an unknown name exactly if it comes to a reference to that name, which is not declared, and with
a cycle exactly if it passes a name twice. The name given with a cycle is on the cycle. A way through all
declared names that does not come back to one of them is no cycle, and a cycle is found wherever it is
entered. There is no other way to fail. -/
theorem resolve_classifies (schema : Schema) (d : Definition) :
    (∀ target, schema.resolve d = .ok target ↔ ∃ names, schema.Chain d names target) ∧
    (∀ name, schema.resolve d = .error (.unknownRef name) ↔
      ∃ names, schema.Leads d names (.ref name) ∧ schema.types.get? name = none) ∧
    ((∃ name, schema.resolve d = .error (.refCycle name)) ↔
      ∃ names last, schema.Leads d names last ∧ ¬ names.Nodup) ∧
    (∀ name, schema.resolve d = .error (.refCycle name) →
      ∃ cycle, cycle ≠ [] ∧ schema.Leads (.ref name) cycle (.ref name)) ∧
    (∀ names last, schema.Leads d names last → names.Perm schema.types.keys →
      (∀ name ∈ names, last ≠ .ref name) → ∀ name, schema.resolve d ≠ .error (.refCycle name)) ∧
    (∀ names last cycle, schema.Leads d names last → schema.Leads last cycle last → cycle ≠ [] →
      ∃ name, schema.resolve d = .error (.refCycle name)) ∧
    ∀ name, schema.resolve d ≠ .error (.missingRootType name) := by
  refine ⟨fun _ => resolve_eq_ok_iff, fun _ => resolve_eq_unknownRef_iff, resolve_eq_refCycle_iff,
    fun name h => ?_, fun names last hleads hperm hlast name h => ?_, ?_, fun name h => ?_⟩
  · obtain ⟨names, hleads, hn⟩ := exists_leads_of_refCycle h
    exact hleads.exists_cycle hn
  · obtain ⟨passed, hpassed, hn⟩ := exists_leads_of_refCycle h
    exact hn (hpassed.nodup_of_stops hleads (stops_of_perm hperm hlast))
  · intro names last cycle hleads hcycle hne
    exact resolve_eq_refCycle_iff.2 (hleads.exists_not_nodup hcycle hne)
  · obtain ⟨_, _, -, ⟨he, -⟩ | ⟨he, -⟩⟩ := follow_error_cases h <;> cases he

/-- A schema of three names, of which the first leads to the second, the second to the third and the third
to the given definition. -/
def winding (third : Definition) (h : third.DistinctKeys) : Schema :=
  Schema.ofTypes "First" [
    ("First", ⟨.ref "Second", trivial⟩), ("Second", ⟨.ref "Third", trivial⟩), ("Third", ⟨third, h⟩)]

/-- The three names lead to a text; if the third leads back to the second, they lead nowhere, and if it
leads to a fourth, to an unknown name. -/
theorem resolve_classifies_winding :
    (winding (.string none) trivial).resolve (.ref "First") = .ok (.string none) ∧
    (∃ name, (winding (.ref "Second") trivial).resolve (.ref "First") = .error (.refCycle name)) ∧
    (winding (.ref "Fourth") trivial).resolve (.ref "First") = .error (.unknownRef "Fourth") := by
  have hleads : ∀ (third : Definition) (h : third.DistinctKeys),
      (winding third h).Leads (.ref "First") ["First", "Second", "Third"] third :=
    fun _ _ => .step rfl (.step rfl (.step rfl .here))
  refine ⟨?_, ?_, ?_⟩
  · have hchain := chain_iff.2 ⟨hleads (.string none) trivial, by simp⟩
    exact ((resolve_classifies _ _).1 _).2 ⟨_, hchain⟩
  · have hcycle : (winding (.ref "Second") trivial).Leads (.ref "Second") ["Second", "Third"]
        (.ref "Second") := .step rfl (.step rfl .here)
    exact (resolve_classifies _ _).2.2.2.2.2.1 _ _ _ (hleads (.ref "Second") trivial) hcycle (by simp)
  · exact ((resolve_classifies _ _).2.1 _).2 ⟨_, hleads (.ref "Fourth") trivial, rfl⟩

end ContentStore.Schema

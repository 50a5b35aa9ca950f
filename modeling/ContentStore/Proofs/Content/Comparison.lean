import ContentStore.Proofs.Content.Rewriting
import ContentStore.Proofs.Content.Validity
import ContentStore.Proofs.Schema.Leaves

/-!
# Comparing the findings of two checks

Two checks look into a value alike if their schemas differ in leaves alone. What relates their issues at
every position that is not looked into relates them as a whole.
-/

namespace ContentStore

/-- A relation of issues that may be told part by part: it holds of the same issues, and where it holds of
the issues of parts it holds of those of the whole. -/
structure PartwiseRelation (r : List Issue → List Issue → Prop) : Prop where
  same : ∀ issues, r issues issues
  append : ∀ {issues issues' others others'}, r issues issues' → r others others' →
    r (issues ++ others) (issues' ++ others')
  under : ∀ {issues issues'}, r issues issues' → ∀ segment,
    r (issues.map (Issue.under segment)) (issues'.map (Issue.under segment))

namespace Validator

/-- Findings that are related issues. -/
def RelatedFindings (r : List Issue → List Issue → Prop) (a b : Findings) : Prop :=
  ∃ issues issues', a = .ok issues ∧ b = .ok issues' ∧ r issues issues'

namespace RelatedFindings

variable {r : List Issue → List Issue → Prop} {a b : Findings}

theorem same (hr : PartwiseRelation r) (issues : List Issue) : RelatedFindings r (.ok issues) (.ok issues) :=
  ⟨issues, issues, rfl, rfl, hr.same issues⟩

theorem under (hr : PartwiseRelation r) (h : RelatedFindings r a b) (segment : Segment) :
    RelatedFindings r (a.map (List.map (Issue.under segment)))
      (b.map (List.map (Issue.under segment))) := by
  obtain ⟨issues, issues', rfl, rfl, hrelated⟩ := h
  exact ⟨_, _, rfl, rfl, hr.under hrelated segment⟩

theorem gather (hr : PartwiseRelation r) {parts others : List Findings}
    (h : List.Forall₂ (RelatedFindings r) parts others) :
    RelatedFindings r (gather parts) (gather others) := by
  induction h with
  | nil => exact same hr []
  | cons head _ ih =>
      obtain ⟨here, here', rfl, rfl, hhere⟩ := head
      obtain ⟨rest, rest', hrest, hrest', hrelated⟩ := ih
      refine ⟨here ++ rest, here' ++ rest', ?_, ?_, hr.append hhere hrelated⟩
      · simp [hrest, Except.map]
      · simp [hrest', Except.map]

theorem append (hr : PartwiseRelation r) (h : RelatedFindings r a b) (issues : List Issue) :
    RelatedFindings r (a.map (· ++ issues)) (b.map (· ++ issues)) := by
  obtain ⟨found, found', rfl, rfl, hrelated⟩ := h
  exact ⟨_, _, rfl, rfl, hr.append hrelated (hr.same issues)⟩

end RelatedFindings

variable {v w : Validator} {schema : Schema} {d : Definition} {value value' : Json}
  {f : Definition.LeafMap} {r : List Issue → List Issue → Prop}

theorem unknownKeyIssues_congr {declared : List String} {members changed : List (String × Json)}
    (h : Entries.keys changed = Entries.keys members) :
    unknownKeyIssues declared changed = unknownKeyIssues declared members := by
  have hkeys : ∀ members : List (String × Json), unknownKeyIssues declared members =
      ((Entries.keys members).filter fun key => !declared.contains key).map fun key =>
        (Fault.unknownKey key).issue [.name key] := by
    intro members
    simp only [unknownKeyIssues, Entries.keys, List.filter_map, List.map_map]
    rfl
  rw [hkeys, hkeys, h]

/-- The findings of two objects with the same keys are related, if they are under every declared
property. -/
theorem findings_struct_related (hr : PartwiseRelation r) {properties : List (String × Definition)}
    {nullable : SortedSet String} {members changed : List (String × Json)}
    (resolved : schema.resolve d = .ok (.struct properties nullable))
    (hkeys : Entries.keys changed = Entries.keys members)
    (h : ∀ key part value value', (key, part) ∈ properties → members.lookup key = some value →
      changed.lookup key = some value' → value'.isNull = value.isNull ∧
        RelatedFindings r (v.findings schema value part)
          (w.findings (schema.mapLeaves f) value' (part.mapLeaves f))) :
    RelatedFindings r (v.findings schema (.object members) d)
      (w.findings (schema.mapLeaves f) (.object changed) (d.mapLeaves f)) := by
  have hmapped := Schema.resolve_mapLeaves_of_eq_ok (f := f) resolved
  rw [findings_struct resolved, findings_struct hmapped, Definition.keys_mapPropertyLeaves,
    unknownKeyIssues_congr hkeys]
  apply RelatedFindings.append hr
  apply RelatedFindings.gather hr
  rw [Definition.mapPropertyLeaves_eq_map, List.map_map, List.forall₂_map_left_iff,
    List.forall₂_map_right_iff, List.forall₂_same]
  intro property hp
  obtain ⟨key, part⟩ := property
  simp only [Function.comp_apply, propertyIssues]
  cases hl : members.lookup key with
  | none =>
      rw [Entries.lookup_eq_none_of_keys_eq hkeys hl]
      exact .same hr _
  | some value =>
      obtain ⟨value', hl'⟩ := Entries.exists_lookup_of_keys_eq hkeys hl
      obtain ⟨hnull, hrelated⟩ := h key part value value' hp hl hl'
      simp only [hl', hnull]
      by_cases hskip : (value.isNull && nullable.contains key) = true
      · simp only [hskip, if_true]
        exact .same hr _
      · rw [if_neg hskip, if_neg hskip]
        exact hrelated.under hr _

theorem findings_list_related (hr : PartwiseRelation r) {element : Definition} {items changed : List Json}
    (resolved : schema.resolve d = .ok (.list element)) (hlength : changed.length = items.length)
    (h : ∀ (place : Nat) value value', items[place]? = some value → changed[place]? = some value' →
      RelatedFindings r (v.findings schema value element)
        (w.findings (schema.mapLeaves f) value' (element.mapLeaves f))) :
    RelatedFindings r (v.findings schema (.array items) d)
      (w.findings (schema.mapLeaves f) (.array changed) (d.mapLeaves f)) := by
  have hmapped := Schema.resolve_mapLeaves_of_eq_ok (f := f) resolved
  rw [findings_list resolved, findings_list hmapped]
  apply RelatedFindings.gather hr
  rw [List.forall₂_map_left_iff, List.forall₂_map_right_iff, List.forall₂_iff_get]
  refine ⟨by simp [hlength], ?_⟩
  intro place hplace hplace'
  simp only [List.get_eq_getElem, List.getElem_zipIdx, Nat.zero_add]
  exact (h place _ _ (List.getElem?_eq_getElem _) (List.getElem?_eq_getElem _)).under hr _

theorem findings_closed_related {target : Definition} (resolved : schema.resolve d = .ok target)
    (closed : target.opens value = false) (closed' : target.opens value' = false)
    (h : r (v.leafIssues target value) (w.leafIssues (target.mapLeaves f) value')) :
    RelatedFindings r (v.findings schema value d) (w.findings (schema.mapLeaves f) value' (d.mapLeaves f)) := by
  have hmapped := Schema.resolve_mapLeaves_of_eq_ok (f := f) resolved
  have hclosed := (target.opens_mapLeaves f value').trans closed'
  exact ⟨_, _, findings_of_not_opens resolved closed, findings_of_not_opens hmapped hclosed, h⟩

/-- The findings of a value and of a rewritten one are related if they are at every visited position, and
if the two checks find related issues at every other position that is not looked into. -/
theorem findings_related_of_rewrites (hr : PartwiseRelation r) {change : Definition → Json → Json → Prop}
    (hkeeps : KeepsNonnull change) (hs : schema.checkStructure = .ok ())
    (hkept : ∀ target value, target.opens value = false → target.isVisited = false ∨ value = .null →
      r (v.leafIssues target value) (w.leafIssues (target.mapLeaves f) value))
    (hvisited : ∀ target value value', target.isVisited = true → change target value value' →
      r (v.leafIssues target value) (w.leafIssues (target.mapLeaves f) value'))
    (hd : schema.Sound d) (h : Rewrites schema change d value value') :
    RelatedFindings r (v.findings schema value d)
      (w.findings (schema.mapLeaves f) value' (d.mapLeaves f)) := by
  induction h with
  | @null d =>
      obtain ⟨target, hresolve⟩ := hd.exists_resolve
      have hclosed : target.opens .null = false := by cases target <;> rfl
      exact findings_closed_related hresolve hclosed hclosed (hkept target _ hclosed (.inr rfl))
  | struct resolved keys declared _ ih =>
      apply findings_struct_related hr resolved keys
      intro key part value value' hp hl hl'
      have hpart := (hd.resolve hs resolved).property hp
      exact ⟨(declared key part value value' hp hl hl').isNull_eq hkeeps,
        ih key part value value' hp hl hl' hpart⟩
  | list resolved length _ ih =>
      apply findings_list_related hr resolved length
      intro place value value' hl hl'
      exact ih place value value' hl hl' (hd.resolve hs resolved).items
  | visited resolved visited _ related =>
      have hclosed := Definition.opens_of_isVisited visited
      exact findings_closed_related resolved (hclosed _) (hclosed _) (hvisited _ _ _ visited related)
  | kept resolved unvisited closed =>
      exact findings_closed_related resolved closed closed (hkept _ _ closed (.inl unvisited))

/-- The findings of one value are related if the two checks find related issues at every position that is
not looked into. -/
theorem findings_related (hr : PartwiseRelation r) (hs : schema.checkStructure = .ok ())
    (hleaf : ∀ target value, target.opens value = false →
      r (v.leafIssues target value) (w.leafIssues (target.mapLeaves f) value))
    (hd : schema.Sound d) (value : Json) :
    RelatedFindings r (v.findings schema value d) (w.findings (schema.mapLeaves f) value (d.mapLeaves f)) := by
  refine Schema.soundInduction hs ?_ ?_ ?_ hd value
  · intro d target value _ resolved closed
    exact findings_closed_related resolved closed closed (hleaf target value closed)
  · intro d element items resolved ih
    refine findings_list_related hr resolved rfl fun place value value' hl hl' => ?_
    cases hl.symm.trans hl'
    exact ih value (List.mem_of_getElem? hl)
  · intro d properties nullable members resolved ih
    refine findings_struct_related hr resolved rfl fun key part value value' hp hl hl' => ?_
    cases hl.symm.trans hl'
    exact ⟨rfl, ih key part value hp hl⟩

/-- Related findings at the root are related findings of content. -/
theorem validate_related (hr : PartwiseRelation r) (hs : schema.checkStructure = .ok ())
    (hleaf : ∀ target value, target.opens value = false →
      r (v.leafIssues target value) (w.leafIssues (target.mapLeaves f) value)) (content : Json) :
    RelatedFindings r (v.validate schema content) (w.validate (schema.mapLeaves f) content) := by
  obtain ⟨⟨root, hroot⟩, -⟩ := Schema.checkStructure_eq_ok_iff.1 hs
  rw [validate_eq, validate_eq, Schema.checkStructure_mapLeaves, Schema.root_mapLeaves, hs, hroot]
  exact findings_related hr hs hleaf (Schema.sound_of_root hs hroot) content

end Validator

end ContentStore

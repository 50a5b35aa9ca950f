import ContentStore.Proofs.Content.Comparison
import ContentStore.Proofs.Content.Resolution
import ContentStore.Proofs.Schema.CollectionIds

/-!
# Checking content with substituted ids

Ids are substituted in a schema and in its content at once. The check compares a fixed collection id with
one in the content; where the substitution keeps these apart if they differ, it finds the same faults at
the same places.
-/

namespace ContentStore

/-- Issues of one kind at one place. -/
def Issue.Alike (a b : Issue) : Prop :=
  a.kind = b.kind ∧ a.path = b.path

namespace Validator

/-- Findings that are issues on both sides, one for one of the same kind at the same place. -/
def AlikeFindings (a b : Findings) : Prop :=
  ∃ issues issues', a = .ok issues ∧ b = .ok issues' ∧ List.Forall₂ Issue.Alike issues issues'

theorem alike_refl (issues : List Issue) : List.Forall₂ Issue.Alike issues issues :=
  List.forall₂_same.2 fun _ _ => ⟨rfl, rfl⟩

theorem partwise_alike : PartwiseRelation (List.Forall₂ Issue.Alike) where
  same := alike_refl
  append h h' := List.rel_append h h'
  under h segment := by
    rw [List.forall₂_map_left_iff, List.forall₂_map_right_iff]
    exact h.imp fun _ _ halike => ⟨halike.1, congrArg (segment :: ·) halike.2⟩

namespace AlikeFindings

variable {a b : Findings}

/-- Alike findings are empty together. -/
theorem eq_nil_iff (h : AlikeFindings a b) : a = .ok [] ↔ b = .ok [] := by
  obtain ⟨issues, issues', rfl, rfl, halike⟩ := h
  rw [Except.ok.injEq, Except.ok.injEq]
  constructor
  · rintro rfl
    exact List.forall₂_nil_left_iff.1 halike
  · rintro rfl
    exact List.forall₂_nil_right_iff.1 halike

end AlikeFindings

variable {v : Validator} {schema : Schema} {d target : Definition} {value value' : Json}
  {f : String → String}

/-! ### Positions that are not looked into -/

theorem leafIssues_mapCollectionIds (h : d.dataType ≠ .documentRef ∨ value = .null) :
    v.leafIssues (d.mapCollectionIds f) value = v.leafIssues d value := by
  cases d with
  | documentRef fixed =>
      rcases h with hd | rfl
      · exact absurd rfl hd
      · rfl
  | _ => rfl

theorem textKeyIssues_resolveMember (resolution : Resolution) (members : List (String × Json)) :
    textKeyIssues (members.map resolution.resolveMember) = textKeyIssues members := by
  funext key
  unfold textKeyIssues
  rw [Resolution.lookup_map_resolveMember]
  cases members.lookup key with
  | none => rfl
  | some value =>
      cases value <;> cases hkey : resolution.forKey? key <;> simp [Resolution.turned, hkey]

/-- A document reference has the same faults with its ids resolved, if resolving tells the id in it from
the fixed one. -/
theorem documentRefIssues_alike {resolution : Resolution} {fixed : Option String}
    {members : List (String × Json)}
    (h : ∀ id ∈ fixed, ∀ text, members.lookup "collectionId" = some (.string text) →
      resolution.collections.resolve id = resolution.collections.resolve text → id = text) :
    List.Forall₂ Issue.Alike (documentRefIssues fixed (.object members))
      (documentRefIssues (fixed.map resolution.collections.resolve)
        (.object (members.map resolution.resolveMember))) := by
  have hkeys := resolution.keys_map_resolveMember members
  simp only [documentRefIssues, textKeyIssues_resolveMember, unknownKeyIssues_congr hkeys]
  refine List.rel_append (alike_refl _) ?_
  unfold otherCollectionIssues
  rw [Resolution.lookup_map_resolveMember]
  cases fixed with
  | none => exact .nil
  | some id =>
      cases hl : members.lookup "collectionId" with
      | none => exact .nil
      | some value =>
          cases value with
          | string text =>
              have hturned : resolution.turned "collectionId" (.string text) =
                  .string (resolution.collections.resolve text) := rfl
              simp only [Option.map_some, hturned]
              by_cases he : id = text
              · subst he
                simp
              · have hne : resolution.collections.resolve id ≠ resolution.collections.resolve text :=
                  fun heq => he (h id rfl text hl heq)
                simp only [he, hne, if_false]
                exact .cons ⟨rfl, rfl⟩ .nil
          | _ => exact .nil

/-! ### Whole values -/

/-- A rewriting after which every visited position has alike faults has alike faults as a whole. -/
theorem findings_alike {r : Definition → Json → Json → Prop} (hkeeps : KeepsNonnull r)
    (hs : schema.checkStructure = .ok ())
    (hleaf : ∀ target value value', target.isVisited = true → r target value value' →
      List.Forall₂ Issue.Alike (v.leafIssues target value)
        (v.leafIssues (target.mapCollectionIds f) value'))
    (hd : schema.Sound d) (h : Rewrites schema r d value value') :
    AlikeFindings (v.findings schema value d)
      (v.findings (schema.mapCollectionIds f) value' (d.mapCollectionIds f)) := by
  rw [Schema.mapCollectionIds_eq_mapLeaves, Definition.mapCollectionIds_eq_mapLeaves]
  refine findings_related_of_rewrites partwise_alike hkeeps hs (fun target value _ hkept => ?_)
    (fun target value value' hv hrelated => ?_) hd h
  · have hother : target.dataType ≠ .documentRef ∨ value = .null := by
      refine hkept.imp_left fun hunvisited hdata => ?_
      cases target <;> cases hdata
      cases hunvisited
    rw [← Definition.mapCollectionIds_eq_mapLeaves, leafIssues_mapCollectionIds hother]
    exact alike_refl _
  · rw [← Definition.mapCollectionIds_eq_mapLeaves]
    exact hleaf target value value' hv hrelated

end Validator

namespace Rewrites

variable {schema : Schema} {r : Definition → Json → Json → Prop} {d : Definition} {value value' : Json}

/-- What is rewritten along a mapped schema is rewritten along the schema. -/
theorem of_mapCollectionIds {f : String → String}
    (h : Rewrites (schema.mapCollectionIds f) r (d.mapCollectionIds f) value value') :
    Rewrites schema (fun target => r (target.mapCollectionIds f)) d value value' := by
  generalize hd : d.mapCollectionIds f = mapped at h
  induction h generalizing d with
  | null => exact .null
  | struct resolved keys _ others ih =>
      subst hd
      obtain ⟨target, hr, he⟩ := Schema.resolve_mapCollectionIds_eq_ok resolved
      cases target with
      | struct properties nullable =>
          obtain ⟨rfl, rfl⟩ := Definition.struct.inj he
          rw [Definition.keys_mapPropertyCollectionIds] at others
          refine .struct hr keys (fun key part value value' hp hl hl' => ?_) others
          have hmapped : (key, part.mapCollectionIds f) ∈
              Definition.mapPropertyCollectionIds f properties := by
            rw [Definition.mapPropertyCollectionIds_eq_map]
            exact List.mem_map.2 ⟨(key, part), hp, rfl⟩
          exact ih key _ value value' hmapped hl hl' rfl
      | _ => cases he
  | list resolved length _ ih =>
      subst hd
      obtain ⟨target, hr, he⟩ := Schema.resolve_mapCollectionIds_eq_ok resolved
      cases target with
      | list element =>
          cases he
          exact .list hr length fun place value value' hl hl' => ih place value value' hl hl' rfl
      | _ => cases he
  | visited resolved visited nonnull related =>
      subst hd
      obtain ⟨target, hr, rfl⟩ := Schema.resolve_mapCollectionIds_eq_ok resolved
      exact .visited hr (by simpa using visited) nonnull related
  | kept resolved unvisited closed =>
      subst hd
      obtain ⟨target, hr, rfl⟩ := Schema.resolve_mapCollectionIds_eq_ok resolved
      exact .kept hr (by simpa using unvisited) (by simpa using closed)

/-- The rewritten positions are leaves of the value. -/
theorem with_leaf (h : Rewrites schema r d value value') :
    Rewrites schema (fun target leaf leaf' => r target leaf leaf' ∧ ∃ path,
      schema.Leaf d value path target leaf) d value value' := by
  induction h with
  | null => exact .null
  | struct resolved keys _ others ih =>
      refine .struct resolved keys (fun key part value value' hp hl hl' => ?_) others
      refine (ih key part value value' hp hl hl').mono fun target leaf leaf' _ _ hleaf => ?_
      obtain ⟨hrelated, path, hpath⟩ := hleaf
      exact ⟨hrelated, _, .member resolved hp hl hpath⟩
  | list resolved length _ ih =>
      refine .list resolved length fun place value value' hl hl' => ?_
      refine (ih place value value' hl hl').mono fun target leaf leaf' _ _ hleaf => ?_
      obtain ⟨hrelated, path, hpath⟩ := hleaf
      exact ⟨hrelated, _, .item resolved hl hpath⟩
  | visited resolved visited nonnull related =>
      have hclosed := Definition.opens_of_isVisited visited
      exact .visited resolved visited nonnull ⟨related, [], .here resolved (hclosed _)⟩
  | kept resolved unvisited closed => exact .kept resolved unvisited closed

end Rewrites

namespace Validator

variable {v : Validator} {schema : Schema} {resolution : Resolution}

/-- A value has alike faults where its ids are resolved, at a visited position. -/
theorem leafIssues_alike {target : Definition} {value value' : Json}
    (hturns : resolution.Turns (target.mapCollectionIds resolution.collections.resolve) value value')
    (h : ∀ id members text, target = .documentRef (some id) → value = .object members →
      members.lookup "collectionId" = some (.string text) →
      resolution.collections.resolve id = resolution.collections.resolve text → id = text) :
    List.Forall₂ Issue.Alike (v.leafIssues target value)
      (v.leafIssues (target.mapCollectionIds resolution.collections.resolve) value') := by
  by_cases hd : target.dataType = .documentRef
  · cases target with
    | documentRef fixed =>
        cases value with
        | object members =>
            cases hturns
            apply documentRefIssues_alike
            rintro id hid text
            cases hid
            exact h id members text rfl rfl
        | _ =>
            cases hturns
            exact alike_refl _
    | _ => cases hd
  · have hsame := hturns.eq_of_not_documentRef (by simpa using hd)
    rw [hsame, leafIssues_mapCollectionIds (.inl hd)]
    exact alike_refl _

/-- A rewriting that resolves the ids at visited positions has alike faults under the schema with resolved
ids, if resolving tells the collection ids in the content from the fixed ones at their positions. -/
theorem validate_alike_of_rewrites {content content' : Json} {root : Definition}
    (hs : schema.checkStructure = .ok ()) (hroot : schema.root = .ok root)
    (hc : Rewrites schema (fun target =>
      resolution.Turns (target.mapCollectionIds resolution.collections.resolve)) root content content')
    (hids : ∀ path id members text,
      schema.Leaf root content path (.documentRef (some id)) (.object members) →
      members.lookup "collectionId" = some (.string text) →
      resolution.collections.resolve id = resolution.collections.resolve text → id = text) :
    AlikeFindings (v.validate schema content)
      (v.validate (schema.resolveCollections resolution.collections) content') := by
  have halike := findings_alike (v := v) (f := resolution.collections.resolve) ?_ hs ?_
    (Schema.sound_of_root hs hroot) hc.with_leaf
  · rw [validate_eq, validate_eq]
    unfold Schema.resolveCollections
    rw [Schema.checkStructure_mapCollectionIds, Schema.root_mapCollectionIds, hs, hroot]
    exact halike
  · intro target leaf leaf' hn hrelated
    exact resolution.turns_keepsNonnull hn hrelated.1
  · intro target leaf leaf' _ hrelated
    obtain ⟨hturns, path, hpath⟩ := hrelated
    apply leafIssues_alike hturns
    rintro id members text rfl rfl
    exact hids path id members text hpath

/-- Content resolved along the schema with resolved ids has alike faults under it. -/
theorem validate_alike {content content' : Json} {root : Definition}
    (hs : schema.checkStructure = .ok ()) (hroot : schema.root = .ok root)
    (hc : (schema.resolveCollections resolution.collections).resolveContent resolution content =
      .ok content')
    (hids : ∀ path id members text,
      schema.Leaf root content path (.documentRef (some id)) (.object members) →
      members.lookup "collectionId" = some (.string text) →
      resolution.collections.resolve id = resolution.collections.resolve text → id = text) :
    AlikeFindings (v.validate schema content)
      (v.validate (schema.resolveCollections resolution.collections) content') := by
  obtain ⟨mapped, found, hmapped, -, hrewrites⟩ := Schema.rewrites_of_resolveContent hc
  unfold Schema.resolveCollections at hmapped hrewrites
  rw [Schema.root_mapCollectionIds, hroot] at hmapped
  cases hmapped
  exact validate_alike_of_rewrites hs hroot hrewrites.of_mapCollectionIds hids

end Validator

end ContentStore

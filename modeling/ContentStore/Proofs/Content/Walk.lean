import ContentStore.Proofs.Content.Visits

/-!
# Where a reading walk comes

A walk over a value either looks into it, because the definition there opens it, or stops at it. It comes
to the leaves below the value, in the order of its parts.
-/

namespace ContentStore.Schema

variable {schema : Schema} {d : Definition}

/-- At the end of a path from a value under a definition stands another value, under a definition that is
no reference and does not open it. -/
inductive Leaf (schema : Schema) : Definition → Json → Path → Definition → Json → Prop
  | here {d target : Definition} {value : Json} (resolved : schema.resolve d = .ok target)
      (closed : target.opens value = false) : Leaf schema d value [] target value
  | member {d part target : Definition} {properties : List (String × Definition)}
      {nullable : SortedSet String} {members : List (String × Json)} {key : String}
      {value leaf : Json} {path : Path}
      (resolved : schema.resolve d = .ok (.struct properties nullable))
      (declared : (key, part) ∈ properties) (holds : members.lookup key = some value)
      (below : Leaf schema part value path target leaf) :
      Leaf schema d (.object members) (.name key :: path) target leaf
  | item {d element target : Definition} {items : List Json} {place : Nat} {value leaf : Json}
      {path : Path} (resolved : schema.resolve d = .ok (.list element))
      (holds : items[place]? = some value) (below : Leaf schema element value path target leaf) :
      Leaf schema d (.array items) (.index place :: path) target leaf

theorem mem_visitsHere_iff {value : Json} {visit : Visit} :
    visit ∈ visitsHere d value ↔ d.isVisited = true ∧ visit = ⟨d, [], value⟩ := by
  unfold visitsHere
  by_cases h : d.isVisited = true <;> simp [h]

theorem leaf_iff_of_not_opens {target : Definition} {value : Json} {visit : Visit}
    (hr : schema.resolve d = .ok target) (ho : target.opens value = false) :
    schema.Leaf d value visit.path visit.definition visit.value ↔ visit = ⟨target, [], value⟩ := by
  obtain ⟨definition, path, leaf⟩ := visit
  constructor
  · intro h
    cases h with
    | here resolved closed =>
        cases hr.symm.trans resolved
        rfl
    | member resolved =>
        cases hr.symm.trans resolved
        cases ho
    | item resolved =>
        cases hr.symm.trans resolved
        cases ho
  · intro h
    cases h
    exact .here hr ho

theorem leaf_struct_iff {properties : List (String × Definition)} {nullable : SortedSet String}
    {members : List (String × Json)} {path : Path} {target : Definition} {leaf : Json}
    (hr : schema.resolve d = .ok (.struct properties nullable)) :
    schema.Leaf d (.object members) path target leaf ↔ ∃ key part value below,
      (key, part) ∈ properties ∧ members.lookup key = some value ∧ path = .name key :: below ∧
        schema.Leaf part value below target leaf := by
  constructor
  · intro h
    cases h with
    | here resolved closed =>
        cases hr.symm.trans resolved
        cases closed
    | member resolved declared holds below =>
        cases hr.symm.trans resolved
        exact ⟨_, _, _, _, declared, holds, rfl, below⟩
  · rintro ⟨key, part, value, below, hp, hl, rfl, hbelow⟩
    exact .member hr hp hl hbelow

theorem leaf_list_iff {element : Definition} {items : List Json} {path : Path} {target : Definition}
    {leaf : Json} (hr : schema.resolve d = .ok (.list element)) :
    schema.Leaf d (.array items) path target leaf ↔ ∃ (place : Nat) (value : Json) (below : Path),
      items[place]? = some value ∧ path = .index place :: below ∧
        schema.Leaf element value below target leaf := by
  constructor
  · intro h
    cases h with
    | here resolved closed =>
        cases hr.symm.trans resolved
        cases closed
    | item resolved holds below =>
        cases hr.symm.trans resolved
        exact ⟨_, _, _, holds, rfl, below⟩
  · rintro ⟨place, value, below, hl, rfl, hbelow⟩
    exact .item hr hl hbelow

private theorem mem_visits_of_not_opens {target : Definition} {value : Json} {found : List Visit}
    (hr : schema.resolve d = .ok target) (ho : target.opens value = false) (hn : value ≠ .null)
    (h : schema.visits value d = .ok found) {visit : Visit} :
    visit ∈ found ↔ visit.definition.isVisited = true ∧ visit.value ≠ .null ∧
      schema.Leaf d value visit.path visit.definition visit.value := by
  cases (visits_of_not_opens hr ho hn).symm.trans h
  rw [mem_visitsHere_iff, leaf_iff_of_not_opens hr ho]
  constructor
  · rintro ⟨hvisited, rfl⟩
    exact ⟨hvisited, hn, rfl⟩
  · rintro ⟨hvisited, -, rfl⟩
    exact ⟨hvisited, rfl⟩

theorem mem_map_under_iff {segment : Segment} {below : List Visit} {visit : Visit} :
    visit ∈ below.map (Visit.under segment) ↔
      ∃ path, visit.path = segment :: path ∧ ⟨visit.definition, path, visit.value⟩ ∈ below := by
  obtain ⟨definition, path, value⟩ := visit
  rw [List.mem_map]
  constructor
  · rintro ⟨visit, hvisit, he⟩
    cases he
    exact ⟨visit.path, rfl, hvisit⟩
  · rintro ⟨path, rfl, hvisit⟩
    exact ⟨_, hvisit, rfl⟩

/-- A walk comes exactly to the leaves that are document references or files and not null. -/
theorem mem_visits_iff {value : Json} {found : List Visit} (h : schema.visits value d = .ok found)
    {visit : Visit} : visit ∈ found ↔ visit.definition.isVisited = true ∧ visit.value ≠ .null ∧
      schema.Leaf d value visit.path visit.definition visit.value := by
  induction value using Json.treeInduction generalizing d found visit with
  | null =>
      cases (visits_null schema d).symm.trans h
      obtain ⟨definition, path, leaf⟩ := visit
      constructor
      · intro hmem
        cases hmem
      · rintro ⟨-, hn, hleaf⟩
        cases hleaf
        exact absurd rfl hn
  | array items ih =>
      obtain ⟨target, hr⟩ := exists_resolve_of_visits (by simp) h
      cases ho : target.opens (.array items) with
      | false => exact mem_visits_of_not_opens hr ho (by simp) h
      | true =>
          obtain ⟨element, rfl⟩ := Definition.eq_list_of_opens ho
          rw [visits_list hr] at h
          rw [mem_gather_iff h, leaf_list_iff hr]
          constructor
          · rintro ⟨⟨item, place⟩, hmem, here, hhere, hvisit⟩
            obtain ⟨below, hbelow, rfl⟩ := map_eq_ok_iff.1 hhere
            obtain ⟨path, hpath, hvisit⟩ := mem_map_under_iff.1 hvisit
            have hget := List.mk_mem_zipIdx_iff_getElem?.1 hmem
            obtain ⟨hvisited, hn, hleaf⟩ := (ih item (List.mem_of_getElem? hget) hbelow).1 hvisit
            exact ⟨hvisited, hn, place, item, path, hget, hpath, hleaf⟩
          · rintro ⟨hvisited, hn, place, item, path, hget, hpath, hleaf⟩
            have hmem := List.mk_mem_zipIdx_iff_getElem?.2 hget
            obtain ⟨here, hhere⟩ := exists_of_gather h (List.mem_map_of_mem hmem)
            obtain ⟨below, hbelow, rfl⟩ := map_eq_ok_iff.1 hhere
            have hvisit : (⟨visit.definition, path, visit.value⟩ : Visit) ∈ below :=
              (ih item (List.mem_of_getElem? hget) hbelow).2 ⟨hvisited, hn, hleaf⟩
            exact ⟨(item, place), hmem, _, hhere, mem_map_under_iff.2 ⟨path, hpath, hvisit⟩⟩
  | object members ih =>
      obtain ⟨target, hr⟩ := exists_resolve_of_visits (by simp) h
      cases ho : target.opens (.object members) with
      | false => exact mem_visits_of_not_opens hr ho (by simp) h
      | true =>
          obtain ⟨properties, nullable, rfl⟩ := Definition.eq_struct_of_opens ho
          rw [visits_struct hr] at h
          rw [mem_gather_iff h, leaf_struct_iff hr]
          constructor
          · rintro ⟨⟨key, part⟩, hp, here, hhere, hvisit⟩
            unfold propertyVisits at hhere
            cases hl : members.lookup key with
            | none =>
                simp only [hl, Except.ok.injEq] at hhere
                subst hhere
                cases hvisit
            | some value =>
                simp only [hl] at hhere
                obtain ⟨below, hbelow, rfl⟩ := map_eq_ok_iff.1 hhere
                obtain ⟨path, hpath, hvisit⟩ := mem_map_under_iff.1 hvisit
                obtain ⟨hvisited, hn, hleaf⟩ := (ih _ (Entries.mem_of_lookup hl) hbelow).1 hvisit
                exact ⟨hvisited, hn, key, part, value, path, hp, hl, hpath, hleaf⟩
          · rintro ⟨hvisited, hn, key, part, value, path, hp, hl, hpath, hleaf⟩
            have hmember : schema.propertyVisits members (key, part) =
                (schema.visits value part).map (List.map (Visit.under (.name key))) := by
              simp only [propertyVisits, hl]
            obtain ⟨here, hhere⟩ := exists_of_gather h (List.mem_map_of_mem hp)
            obtain ⟨below, hbelow, rfl⟩ := map_eq_ok_iff.1 (hmember.symm.trans hhere)
            have hvisit : (⟨visit.definition, path, visit.value⟩ : Visit) ∈ below :=
              (ih _ (Entries.mem_of_lookup hl) hbelow).2 ⟨hvisited, hn, hleaf⟩
            exact ⟨(key, part), hp, _, hhere, mem_map_under_iff.2 ⟨path, hpath, hvisit⟩⟩
  | _ =>
      obtain ⟨target, hr⟩ := exists_resolve_of_visits (by simp) h
      exact mem_visits_of_not_opens hr (by cases target <;> rfl) (by simp) h

/-- Induction over a value along a sound definition: at every part the references are followed, and the
value is looked into where what they lead to opens it. -/
@[elab_as_elim]
theorem soundInduction (hs : schema.checkStructure = .ok ()) {motive : Definition → Json → Prop}
    (leaf : ∀ d target value, schema.Sound d → schema.resolve d = .ok target →
      target.opens value = false → motive d value)
    (list : ∀ d element items, schema.resolve d = .ok (.list element) →
      (∀ item ∈ items, motive element item) → motive d (.array items))
    (struct : ∀ d properties nullable members,
      schema.resolve d = .ok (.struct properties nullable) →
      (∀ key part value, (key, part) ∈ properties → members.lookup key = some value →
        motive part value) → motive d (.object members))
    (hd : schema.Sound d) (value : Json) : motive d value := by
  induction value using Json.treeInduction generalizing d with
  | array items ih =>
      obtain ⟨target, hr⟩ := hd.exists_resolve
      by_cases ho : target.opens (.array items) = true
      · obtain ⟨element, rfl⟩ := Definition.eq_list_of_opens ho
        have helement := (hd.resolve hs hr).items
        exact list d element items hr fun item hitem => ih item hitem helement
      · exact leaf d target _ hd hr (by simpa using ho)
  | object members ih =>
      obtain ⟨target, hr⟩ := hd.exists_resolve
      by_cases ho : target.opens (.object members) = true
      · obtain ⟨properties, nullable, rfl⟩ := Definition.eq_struct_of_opens ho
        have hstruct := hd.resolve hs hr
        exact struct d properties nullable members hr fun key part value hp hl =>
          ih (key, value) (Entries.mem_of_lookup hl) (hstruct.property hp)
      · exact leaf d target _ hd hr (by simpa using ho)
  | _ =>
      obtain ⟨target, hr⟩ := hd.exists_resolve
      exact leaf d target _ hd hr (by cases target <;> rfl)

/-- A value under a sound definition can be walked. -/
theorem exists_visits (hs : schema.checkStructure = .ok ()) (hd : schema.Sound d) (value : Json) :
    ∃ found, schema.visits value d = .ok found := by
  refine soundInduction hs ?_ ?_ ?_ hd value
  · intro d target value _ hr ho
    by_cases hn : value = .null
    · exact ⟨[], by rw [hn, visits_null]⟩
    · exact ⟨_, visits_of_not_opens hr ho hn⟩
  · intro d element items hr ih
    rw [visits_list hr]
    apply exists_gather
    intro part hpart
    obtain ⟨⟨item, place⟩, hmem, rfl⟩ := List.mem_map.1 hpart
    obtain ⟨found, hfound⟩ := ih item (List.fst_mem_of_mem_zipIdx hmem)
    exact ⟨_, map_eq_ok_iff.2 ⟨found, hfound, rfl⟩⟩
  · intro d properties nullable members hr ih
    rw [visits_struct hr]
    apply exists_gather
    intro part hpart
    obtain ⟨⟨key, d⟩, hmem, rfl⟩ := List.mem_map.1 hpart
    unfold propertyVisits
    cases hl : members.lookup key with
    | none => exact ⟨[], rfl⟩
    | some value =>
        obtain ⟨found, hfound⟩ := ih key d value hmem hl
        exact ⟨_, map_eq_ok_iff.2 ⟨found, hfound, rfl⟩⟩

theorem visitContent_eq_ok_iff {content : Json} {found : List Visit} :
    schema.visitContent content = .ok found ↔
      ∃ root, schema.root = .ok root ∧ schema.visits content root = .ok found := by
  rw [visitContent_eq]
  cases schema.root <;> simp [Except.bind]

/-- Content of a schema in order can be walked. -/
theorem exists_visitContent (hs : schema.checkStructure = .ok ()) (content : Json) :
    ∃ found, schema.visitContent content = .ok found := by
  obtain ⟨⟨root, hroot⟩, -⟩ := checkStructure_eq_ok_iff.1 hs
  obtain ⟨found, hfound⟩ := exists_visits hs (sound_of_root hs hroot) content
  exact ⟨found, visitContent_eq_ok_iff.2 ⟨root, hroot, hfound⟩⟩

end ContentStore.Schema

import ContentStore.Proofs.Content.Change

/-!
# How walks end

The changing walk and the reading walk follow references at the same places in the same order, so that
either both succeed or both fail with the same error, whatever the visitor does.
-/

namespace ContentStore.Schema

variable {schema : Schema} {d : Definition} {σ : Type} {visitor : Visitor σ} {path : Path}

theorem change_bind_eq {α β : Type} (x : Change σ α) (f : α → Change σ β) (s : σ) :
    (x >>= f) s = (x s).bind fun result => f result.1 result.2 := rfl

/-- The changing walk of a value ends as the reading walk does, whatever the visitor does. -/
def EndsAlike (schema : Schema) (visitor : Visitor σ) (value : Json) : Prop :=
  ∀ (path : Path) (d : Definition) (s : σ),
    outcome (schema.changeAt visitor value path d s) = outcome (schema.visits value d)

theorem outcome_changePropertiesAt {members : List (String × Json)}
    (hm : ∀ member ∈ members, EndsAlike schema visitor member.2)
    (properties : List (String × Definition)) (current : List (String × Json)) (s : σ) :
    outcome (changePropertiesAt path (schema.memberChangesAt visitor members) properties current s) =
      outcome (gather (properties.map (schema.propertyVisits members))) := by
  induction properties generalizing current s with
  | nil => rfl
  | cons property rest ih =>
      obtain ⟨key, part⟩ := property
      simp only [changePropertiesAt, lookup_memberChangesAt, List.map_cons, propertyVisits]
      cases hl : members.lookup key with
      | none =>
          simp only [Option.map_none, gather_ok_cons, outcome_map]
          exact ih current s
      | some value =>
          simp only [Option.map_some]
          rw [change_bind_eq, gather_cons_eq_bind,
            outcome_bind fun result : Json × σ => ih (Json.setMember key result.1 current) result.2,
            outcome_bind fun here => outcome_map _ _, outcome_map, hm _ (Entries.mem_of_lookup hl)]

theorem outcome_changeItemsAt {element : Definition} {items : List Json}
    (hi : ∀ item ∈ items, EndsAlike schema visitor item) (place : Nat) (s : σ) :
    outcome (changeItemsAt path element place (items.map (schema.changeAt visitor)) s) =
      outcome (gather ((items.zipIdx place).map (schema.placeVisits element))) := by
  induction items generalizing place s with
  | nil => rfl
  | cons item rest ih =>
      obtain ⟨hitem, hrest⟩ := List.forall_mem_cons.1 hi
      simp only [changeItemsAt, List.map_cons, List.zipIdx_cons, placeVisits]
      have hlater : ∀ result : Json × σ, outcome
          ((changeItemsAt path element (place + 1) (rest.map (schema.changeAt visitor)) >>= fun items =>
            pure (result.1 :: items) : Change σ (List Json)) result.2) =
          outcome (gather ((rest.zipIdx (place + 1)).map (schema.placeVisits element))) := by
        intro result
        rw [← ih hrest (place + 1) result.2, change_bind_eq]
        exact outcome_map _ fun later : List Json × σ => (result.1 :: later.1, later.2)
      rw [change_bind_eq, gather_cons_eq_bind, outcome_bind hlater,
        outcome_bind fun here => outcome_map _ _, outcome_map, hitem]

theorem outcome_of_not_opens {target : Definition} {value : Json} (hr : schema.resolve d = .ok target)
    (ho : target.opens value = false) (hn : value ≠ .null) (s : σ) :
    outcome (schema.changeAt visitor value path d s) = outcome (schema.visits value d) := by
  rw [changeAt_of_not_opens hr ho hn, visits_of_not_opens hr ho hn]
  unfold changeHereAt
  split <;> rfl

theorem endsAlike (schema : Schema) (visitor : Visitor σ) (value : Json) :
    EndsAlike schema visitor value := by
  induction value using Json.treeInduction with
  | null => exact fun path d s => rfl
  | array items ih =>
      intro path d s
      cases hr : schema.resolve d with
      | error e => rw [changeAt_of_resolve_error hr (by simp), visits_of_resolve_error hr (by simp)]; rfl
      | ok target =>
          cases ho : target.opens (.array items) with
          | false => exact outcome_of_not_opens hr ho (by simp) s
          | true =>
              obtain ⟨element, rfl⟩ := Definition.eq_list_of_opens ho
              rw [changeAt_list hr, visits_list hr, outcome_map]
              exact outcome_changeItemsAt ih 0 s
  | object members ih =>
      intro path d s
      cases hr : schema.resolve d with
      | error e => rw [changeAt_of_resolve_error hr (by simp), visits_of_resolve_error hr (by simp)]; rfl
      | ok target =>
          cases ho : target.opens (.object members) with
          | false => exact outcome_of_not_opens hr ho (by simp) s
          | true =>
              obtain ⟨properties, nullable, rfl⟩ := Definition.eq_struct_of_opens ho
              rw [changeAt_struct hr, visits_struct hr, outcome_map]
              exact outcome_changePropertiesAt ih properties members s
  | _ =>
      intro path d s
      cases hr : schema.resolve d with
      | error e => rw [changeAt_of_resolve_error hr (by simp), visits_of_resolve_error hr (by simp)]; rfl
      | ok target => exact outcome_of_not_opens hr (by cases target <;> rfl) (by simp) s

/-- Content is changed without an error exactly if it is walked without one; the errors are the same. -/
theorem outcome_changeContent (visitor : Visitor σ) (content : Json) (s : σ) :
    outcome (schema.changeContent visitor content s) = outcome (schema.visitContent content) := by
  cases hroot : schema.root with
  | error e =>
      rw [changeContent_of_root_error hroot]
      rw [visitContent_eq, hroot]
      rfl
  | ok root =>
      rw [changeContent_eq hroot, endsAlike schema visitor content [] root s, visitContent_eq, hroot]
      rfl

theorem exists_changeContent_of_visitContent {content : Json} {found : List Visit}
    (h : schema.visitContent content = .ok found) (visitor : Visitor σ) (s : σ) :
    ∃ result, schema.changeContent visitor content s = .ok result :=
  exists_of_outcome ((outcome_changeContent visitor content s).trans (by rw [h, outcome_ok]))

/-- Content of a schema in order can be changed, whatever the visitor does. -/
theorem exists_changeContent (hs : schema.checkStructure = .ok ()) (content : Json) (s : σ) :
    ∃ result, schema.changeContent visitor content s = .ok result := by
  obtain ⟨found, hfound⟩ := exists_visitContent hs content
  exact exists_changeContent_of_visitContent hfound visitor s

end ContentStore.Schema

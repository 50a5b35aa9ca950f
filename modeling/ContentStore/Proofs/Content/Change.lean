import ContentStore.Proofs.Content.Changing
import ContentStore.Proofs.Content.Rewriting

/-!
# What the changing walk does

The changing walk rewrites the visits of the reading walk, taken in order. The visitor's state is taken
out once, by tracing the visitor over those visits.
-/

namespace ContentStore

/-! ## Tracing a visitor -/

namespace Visitor

variable {σ : Type}

def trace (visitor : Visitor σ) : List Visit → σ → List (Visit × Json)
  | [], _ => []
  | visit :: rest, s => (visit, (visitor visit s).1) :: trace visitor rest (visitor visit s).2

def final (visitor : Visitor σ) (visits : List Visit) (s : σ) : σ :=
  visits.foldl (fun s visit => (visitor visit s).2) s

@[simp] theorem final_append (visitor : Visitor σ) (first second : List Visit) (s : σ) :
    visitor.final (first ++ second) s = visitor.final second (visitor.final first s) :=
  List.foldl_append

theorem trace_append (visitor : Visitor σ) (first second : List Visit) (s : σ) :
    visitor.trace (first ++ second) s =
      visitor.trace first s ++ visitor.trace second (visitor.final first s) := by
  induction first generalizing s with
  | nil => rfl
  | cons visit rest ih => simp [trace, final, ih]

theorem mem_of_mem_trace {visitor : Visitor σ} {visits : List Visit} {s : σ} {visit : Visit}
    {value : Json} (h : (visit, value) ∈ visitor.trace visits s) : visit ∈ visits := by
  induction visits generalizing s with
  | nil => cases h
  | cons first rest ih =>
      rcases List.mem_cons.1 h with he | hr
      · cases he
        simp
      · exact List.mem_cons_of_mem _ (ih hr)

/-- A visitor without state puts in each place what it gives for the visit there. -/
theorem eq_of_mem_trace_of_stateless {f : Visit → Json} {visits : List Visit} {visit : Visit}
    {value : Json} (h : (visit, value) ∈ trace (fun visit (_ : Unit) => (f visit, ())) visits ()) :
    value = f visit := by
  induction visits with
  | nil => cases h
  | cons first rest ih =>
      rcases List.mem_cons.1 h with he | hr
      · cases he
        rfl
      · exact ih hr

end Visitor

/-- The visits of a trace with the values put in their places. No visit is left where null was put. -/
def Visit.replaced (pairs : List (Visit × Json)) : List Visit :=
  (pairs.filter fun pair => !pair.2.isNull).map fun pair => { pair.1 with value := pair.2 }

theorem Visit.replaced_append (first second : List (Visit × Json)) :
    Visit.replaced (first ++ second) = Visit.replaced first ++ Visit.replaced second := by
  simp [Visit.replaced]

theorem Visit.replaced_cons {visit : Visit} {value : Json} (hn : value ≠ .null)
    (pairs : List (Visit × Json)) :
    Visit.replaced ((visit, value) :: pairs) =
      { visit with value := value } :: Visit.replaced pairs := by
  have hnull : value.isNull = false := by simpa [← Json.isNull_iff] using hn
  simp [Visit.replaced, hnull]

def Visit.mapped (f : Visit → Json) (visit : Visit) : Visit :=
  { visit with value := f visit }

theorem Visitor.replaced_trace_of_stateless {f : Visit → Json} {visits : List Visit}
    (hf : ∀ visit ∈ visits, f visit ≠ .null) :
    Visit.replaced (Visitor.trace (fun visit (_ : Unit) => (f visit, ())) visits ()) =
      visits.map (Visit.mapped f) := by
  induction visits with
  | nil => rfl
  | cons visit rest ih =>
      obtain ⟨hvisit, hrest⟩ := List.forall_mem_cons.1 hf
      rw [Visitor.trace, Visit.replaced_cons hvisit, ih hrest]
      rfl

theorem Visit.below_under (path : Path) (segment : Segment) (visit : Visit) :
    (visit.under segment).below path = visit.below (path ++ [segment]) := by
  simp [Visit.below, Visit.under]

def Visit.seenFrom (path : Path) (visits : List Visit) : List Visit :=
  visits.map (Visit.below path.reverse)

theorem Visit.seenFrom_root (visits : List Visit) : Visit.seenFrom [] visits = visits :=
  List.map_id visits

theorem Visit.seenFrom_under_append (path : Path) (segment : Segment) (here rest : List Visit) :
    Visit.seenFrom path (here.map (Visit.under segment) ++ rest) =
      Visit.seenFrom (segment :: path) here ++ Visit.seenFrom path rest := by
  have hbelow : Visit.below path.reverse ∘ Visit.under segment =
      Visit.below (segment :: path).reverse := by
    funext visit
    rw [Function.comp_apply, Visit.below_under, List.reverse_cons]
  rw [seenFrom, List.map_append, List.map_map, hbelow]
  rfl

/-! ## The changing walk, case by case -/

namespace Schema

variable {schema : Schema} {d : Definition} {σ : Type}

theorem distinctKeys_of_resolve {target : Definition} (hd : d.DistinctKeys)
    (h : schema.resolve d = .ok target) : target.DistinctKeys := by
  rcases follow_eq_or_declared h with rfl | ⟨name, hdeclared⟩
  · exact hd
  · exact schema.distinct _ (Entries.mem_of_lookup hdeclared)

theorem distinctKeys_of_root (h : schema.root = .ok d) : d.DistinctKeys :=
  schema.distinct _ (Entries.mem_of_lookup (root_eq_ok_iff.1 h))

variable {visitor : Visitor σ} {path : Path}

theorem change_bind_eq_ok {α β : Type} {x : Change σ α} {f : α → Change σ β} {s : σ}
    {result : β × σ} :
    (x >>= f) s = .ok result ↔ ∃ a middle, x s = .ok (a, middle) ∧ f a middle = .ok result := by
  change (x s >>= fun pair => f pair.1 pair.2) = .ok result ↔ _
  cases x s with
  | error e => simp [bind, Except.bind]
  | ok pair =>
      obtain ⟨a, middle⟩ := pair
      simp [bind, Except.bind]

theorem change_pure_eq_ok {α : Type} {a : α} {s : σ} {result : α × σ} :
    (pure a : Change σ α) s = .ok result ↔ (a, s) = result := by
  change Except.ok (a, s) = .ok result ↔ _
  rw [Except.ok.injEq]

theorem exists_resolve_of_changeAt {value : Json} {s : σ} {result : Json × σ} (hn : value ≠ .null)
    (h : schema.changeAt visitor value path d s = .ok result) :
    ∃ target, schema.resolve d = .ok target := by
  cases hr : schema.resolve d with
  | ok target => exact ⟨target, rfl⟩
  | error e =>
      rw [changeAt_of_resolve_error hr hn] at h
      cases h

/-! ## What the walk visits -/

/-- A value became another at a visit that a trace holds. -/
def Traced (pairs : List (Visit × Json)) (d : Definition) (value value' : Json) : Prop :=
  ∃ path, (⟨d, path, value⟩, value') ∈ pairs

/-- What a walk over some visits rewrites is rewritten where further visits follow. -/
theorem rewrites_traced_append_left {first : List Visit} {s : σ} {value value' : Json}
    (h : Rewrites schema (Traced (visitor.trace first s)) d value value') (second : List Visit) :
    Rewrites schema (Traced (visitor.trace (first ++ second) s)) d value value' := by
  rw [Visitor.trace_append]
  exact h.mono fun _ _ _ _ _ ⟨path, ht⟩ => ⟨path, List.mem_append_left _ ht⟩

/-- What a walk over further visits rewrites is rewritten where they follow the first. -/
theorem rewrites_traced_append_right {first second : List Visit} {s : σ} {value value' : Json}
    (h : Rewrites schema (Traced (visitor.trace second (visitor.final first s))) d value value') :
    Rewrites schema (Traced (visitor.trace (first ++ second) s)) d value value' := by
  rw [Visitor.trace_append]
  exact h.mono fun _ _ _ _ _ ⟨path, ht⟩ => ⟨path, List.mem_append_right _ ht⟩

/-- A value is changed at the visits of the reading walk, and nowhere else; walking the new value again
finds what the visitor put there. -/
structure Walked (schema : Schema) (visitor : Visitor σ) (path : Path) (d : Definition)
    (value value' : Json) (s s' : σ) (found : List Visit) : Prop where
  visits : schema.visits value d = .ok found
  state : s' = visitor.final (Visit.seenFrom path found) s
  rewrites : Rewrites schema (Traced (visitor.trace (Visit.seenFrom path found) s)) d value value'
  again : ∃ found', schema.visits value' d = .ok found' ∧
    Visit.seenFrom path found' = Visit.replaced (visitor.trace (Visit.seenFrom path found) s)

/-- The changing walk of a value visits what the reading walk visits, and changes nothing else. -/
def Agrees (schema : Schema) (visitor : Visitor σ) (value : Json) : Prop :=
  ∀ (path : Path) (d : Definition) (s : σ) (value' : Json) (s' : σ), d.DistinctKeys →
    schema.changeAt visitor value path d s = .ok (value', s') →
    ∃ found, Walked schema visitor path d value value' s s' found

/-! ### Structs -/

/-- Of the members of an object, those that properties declare are changed as the walk visits them; the
walk goes on from the current members. -/
structure PropertiesWalked (schema : Schema) (visitor : Visitor σ) (path : Path)
    (members : List (String × Json)) (properties : List (String × Definition))
    (current changed : List (String × Json)) (s s' : σ) (found : List Visit) : Prop where
  visits : gather (properties.map (schema.propertyVisits members)) = .ok found
  state : s' = visitor.final (Visit.seenFrom path found) s
  again : ∃ found', gather (properties.map (schema.propertyVisits changed)) = .ok found' ∧
    Visit.seenFrom path found' = Visit.replaced (visitor.trace (Visit.seenFrom path found) s)
  keys : Entries.keys changed = Entries.keys current
  others : ∀ key, key ∉ Entries.keys properties → changed.lookup key = current.lookup key
  parts : ∀ key part value value', (key, part) ∈ properties → members.lookup key = some value →
    changed.lookup key = some value' →
      Rewrites schema (Traced (visitor.trace (Visit.seenFrom path found) s)) part value value'

namespace PropertiesWalked

variable {members current changed : List (String × Json)} {rest : List (String × Definition)}
  {key : String} {found : List Visit} {s s' : σ}

theorem nil : PropertiesWalked schema visitor path members [] current current s s [] where
  visits := rfl
  state := rfl
  again := ⟨[], rfl, rfl⟩
  keys := rfl
  others _ _ := rfl
  parts := by simp

/-- A declared member that is missing is not visited. -/
theorem missing (hc : Entries.keys current = Entries.keys members) (hl : members.lookup key = none)
    (h : PropertiesWalked schema visitor path members rest current changed s s' found) :
    PropertiesWalked schema visitor path members ((key, d) :: rest) current changed s s' found where
  visits := gather_cons_eq_ok.2 ⟨[], found, by simp [propertyVisits, hl], h.visits, rfl⟩
  state := h.state
  again := by
    obtain ⟨found', hfound', hseen⟩ := h.again
    have hl' := Entries.lookup_eq_none_of_keys_eq (h.keys.trans hc) hl
    exact ⟨found', gather_cons_eq_ok.2 ⟨[], found', by simp [propertyVisits, hl'], hfound', rfl⟩, hseen⟩
  keys := h.keys
  others other ho := h.others other fun hmem => ho (List.mem_cons_of_mem _ hmem)
  parts other part value value' hp hv hv' := by
    rcases List.mem_cons.1 hp with he | hp
    · cases he
      simp [hl] at hv
    · exact h.parts other part value value' hp hv hv'

/-- A declared member is changed first; the walk goes on from the members with the new value. -/
theorem present {value new : Json} {middle : σ} {here : List Visit}
    (hc : Entries.keys current = Entries.keys members) (hl : members.lookup key = some value)
    (hfresh : key ∉ Entries.keys rest)
    (hw : Walked schema visitor (.name key :: path) d value new s middle here)
    (h : PropertiesWalked schema visitor path members rest (Json.setMember key new current) changed
      middle s' found) :
    PropertiesWalked schema visitor path members ((key, d) :: rest) current changed s s'
      (here.map (Visit.under (.name key)) ++ found) where
  visits := gather_cons_eq_ok.2
    ⟨_, found, by simp [propertyVisits, hl, hw.visits, Except.map], h.visits, rfl⟩
  state := by
    rw [Visit.seenFrom_under_append, Visitor.final_append, ← hw.state]
    exact h.state
  again := by
    obtain ⟨before, hbefore⟩ := Entries.exists_lookup_of_keys_eq hc hl
    -- No later property has the key, so that the new value is still there at the end.
    have hnew : changed.lookup key = some new := by
      rw [h.others key hfresh, Json.lookup_setMember_self, hbefore, Option.map_some]
    obtain ⟨here', hhere', hseenHere⟩ := hw.again
    obtain ⟨found', hfound', hseen⟩ := h.again
    refine ⟨here'.map (Visit.under (.name key)) ++ found', gather_cons_eq_ok.2
      ⟨_, found', by simp [propertyVisits, hnew, hhere', Except.map], hfound', rfl⟩, ?_⟩
    rw [Visit.seenFrom_under_append, Visit.seenFrom_under_append, Visitor.trace_append,
      Visit.replaced_append, hseenHere, hseen, hw.state]
  keys := h.keys.trans (Json.keys_setMember key new current)
  others other ho := by
    obtain ⟨hne, hmem⟩ := not_or.1 fun hor => ho (List.mem_cons.2 hor)
    rw [h.others other hmem, Json.lookup_setMember_of_ne hne]
  parts other part v v' hp hv hv' := by
    rw [Visit.seenFrom_under_append]
    rcases List.mem_cons.1 hp with he | hp
    · cases he
      -- No later property has the key, so that the new value is still there at the end.
      rw [h.others _ hfresh, Json.lookup_setMember_self] at hv'
      obtain ⟨_, -, rfl⟩ := Option.map_eq_some_iff.1 hv'
      rw [hl, Option.some.injEq] at hv
      subst hv
      exact rewrites_traced_append_left hw.rewrites _
    · have hpart := h.parts other part v v' hp hv hv'
      rw [hw.state] at hpart
      exact rewrites_traced_append_right hpart

end PropertiesWalked

theorem changePropertiesAt_walked {members : List (String × Json)}
    (hm : ∀ member ∈ members, Agrees schema visitor member.2)
    {properties : List (String × Definition)} {current changed : List (String × Json)} {s s' : σ}
    (hc : Entries.keys current = Entries.keys members) (hk : (Entries.keys properties).Nodup)
    (hd : Definition.DistinctPropertyKeys properties)
    (h : changePropertiesAt path (schema.memberChangesAt visitor members) properties current s =
      .ok (changed, s')) :
    ∃ found, PropertiesWalked schema visitor path members properties current changed s s' found := by
  induction properties generalizing current s with
  | nil =>
      cases h
      exact ⟨[], .nil⟩
  | cons property rest ih =>
      obtain ⟨key, d⟩ := property
      obtain ⟨hfresh, hkrest⟩ := List.nodup_cons.1 hk
      cases hl : members.lookup key with
      | none =>
          simp only [changePropertiesAt, lookup_memberChangesAt, hl, Option.map_none] at h
          obtain ⟨found, hrest⟩ := ih hc hkrest hd.2 h
          exact ⟨found, hrest.missing hc hl⟩
      | some value =>
          simp only [changePropertiesAt, lookup_memberChangesAt, hl, Option.map_some,
            change_bind_eq_ok] at h
          obtain ⟨new, middle, hnew, hrest⟩ := h
          obtain ⟨here, hhere⟩ := hm _ (Entries.mem_of_lookup hl) _ _ _ _ _ hd.1 hnew
          have hset := (Json.keys_setMember key new current).trans hc
          obtain ⟨found, hfound⟩ := ih hset hkrest hd.2 hrest
          exact ⟨_, hfound.present hc hl hfresh hhere⟩

/-! ### Lists -/

/-- The items of a list, from a place on, are changed as the walk visits them. -/
structure ItemsWalked (schema : Schema) (visitor : Visitor σ) (path : Path) (element : Definition)
    (place : Nat) (items changed : List Json) (s s' : σ) (found : List Visit) : Prop where
  visits : gather ((items.zipIdx place).map (schema.placeVisits element)) = .ok found
  state : s' = visitor.final (Visit.seenFrom path found) s
  again : ∃ found', gather ((changed.zipIdx place).map (schema.placeVisits element)) = .ok found' ∧
    Visit.seenFrom path found' = Visit.replaced (visitor.trace (Visit.seenFrom path found) s)
  length : changed.length = items.length
  parts : ∀ (index : Nat) value value', items[index]? = some value → changed[index]? = some value' →
    Rewrites schema (Traced (visitor.trace (Visit.seenFrom path found) s)) element value value'

theorem ItemsWalked.cons {element : Definition} {place : Nat} {item new : Json}
    {rest changed : List Json} {s middle s' : σ} {here found : List Visit}
    (hw : Walked schema visitor (.index place :: path) element item new s middle here)
    (h : ItemsWalked schema visitor path element (place + 1) rest changed middle s' found) :
    ItemsWalked schema visitor path element place (item :: rest) (new :: changed) s s'
      (here.map (Visit.under (.index place)) ++ found) where
  visits := gather_cons_eq_ok.2
    ⟨_, found, by simp [placeVisits, hw.visits, Except.map], h.visits, rfl⟩
  state := by
    rw [Visit.seenFrom_under_append, Visitor.final_append, ← hw.state]
    exact h.state
  again := by
    obtain ⟨here', hhere', hseenHere⟩ := hw.again
    obtain ⟨found', hfound', hseen⟩ := h.again
    refine ⟨here'.map (Visit.under (.index place)) ++ found', gather_cons_eq_ok.2
      ⟨_, found', by simp [placeVisits, hhere', Except.map], hfound', rfl⟩, ?_⟩
    rw [Visit.seenFrom_under_append, Visit.seenFrom_under_append, Visitor.trace_append,
      Visit.replaced_append, hseenHere, hseen, hw.state]
  length := congrArg (· + 1) h.length
  parts index value value' hv hv' := by
    rw [Visit.seenFrom_under_append]
    cases index with
    | zero =>
        cases hv
        cases hv'
        exact rewrites_traced_append_left hw.rewrites _
    | succ index =>
        have hpart := h.parts index value value' (by simpa using hv) (by simpa using hv')
        rw [hw.state] at hpart
        exact rewrites_traced_append_right hpart

theorem changeItemsAt_walked {element : Definition} (hd : element.DistinctKeys) {items : List Json}
    (hi : ∀ item ∈ items, Agrees schema visitor item) {place : Nat} {changed : List Json} {s s' : σ}
    (h : changeItemsAt path element place (items.map (schema.changeAt visitor)) s = .ok (changed, s')) :
    ∃ found, ItemsWalked schema visitor path element place items changed s s' found := by
  induction items generalizing place changed s with
  | nil =>
      cases h
      exact ⟨[], rfl, rfl, ⟨[], rfl, rfl⟩, rfl, by simp⟩
  | cons item rest ih =>
      simp only [changeItemsAt, List.map_cons, change_bind_eq_ok, change_pure_eq_ok] at h
      obtain ⟨new, middle, hnew, news, last, hrest, he⟩ := h
      cases he
      obtain ⟨here, hhere⟩ := hi item (by simp) _ element _ _ _ hd hnew
      obtain ⟨found, hfound⟩ := ih (fun i h => hi i (by simp [h])) hrest
      exact ⟨_, hfound.cons hhere⟩

/-! ### All values -/

theorem walked_of_not_opens {target : Definition} {value value' : Json} {s s' : σ}
    (hr : schema.resolve d = .ok target) (ho : target.opens value = false) (hn : value ≠ .null)
    (h : schema.changeAt visitor value path d s = .ok (value', s')) :
    Walked schema visitor path d value value' s s' (visitsHere target value) := by
  rw [changeAt_of_not_opens hr ho hn] at h
  have hvisits := visits_of_not_opens hr ho hn
  unfold changeHereAt at h
  cases hv : target.isVisited with
  | true =>
      have hseen : Visit.seenFrom path (visitsHere target value) = [⟨target, path.reverse, value⟩] := by
        simp [Visit.seenFrom, visitsHere, hv, Visit.below]
      simp only [hv, if_true, Except.ok.injEq] at h
      refine ⟨hvisits, ?_, .visited hr hv hn ⟨path.reverse, ?_⟩, ?_⟩
      · simp [hseen, Visitor.final, h]
      · simp [hseen, Visitor.trace, h]
      · simp only [hseen, Visitor.trace, h]
        by_cases hnull : value' = .null
        · subst hnull
          exact ⟨[], visits_null schema d, rfl⟩
        · refine ⟨_, visits_visited hr hv hnull, ?_⟩
          have hstays : value'.isNull = false :=
            Bool.eq_false_iff.2 fun hisNull => hnull (Json.isNull_iff.1 hisNull)
          simp [Visit.seenFrom, Visit.below, Visit.replaced, hstays]
  | false =>
      have hhere : visitsHere target value = [] := by simp [visitsHere, hv]
      simp only [hv, Bool.false_eq_true, if_false, Except.ok.injEq, Prod.mk.injEq] at h
      obtain ⟨rfl, rfl⟩ := h
      exact ⟨hvisits, by rw [hhere]; rfl, .kept hr hv ho, _, hvisits, by rw [hhere]; rfl⟩

theorem agrees (schema : Schema) (visitor : Visitor σ) (value : Json) :
    Agrees schema visitor value := by
  induction value using Json.treeInduction with
  | null =>
      intro path d s value' s' _ h
      simp only [changeAt] at h
      cases h
      exact ⟨[], by simp, rfl, .null, [], by simp, rfl⟩
  | array items ih =>
      intro path d s value' s' hd h
      obtain ⟨target, hr⟩ := exists_resolve_of_changeAt (by simp) h
      cases ho : target.opens (.array items) with
      | false => exact ⟨_, walked_of_not_opens hr ho (by simp) h⟩
      | true =>
          obtain ⟨element, rfl⟩ := Definition.eq_list_of_opens ho
          rw [changeAt_list hr] at h
          obtain ⟨⟨changed, last⟩, hc, he⟩ := map_eq_ok_iff.1 h
          cases he
          have hlist : (Definition.list element).DistinctKeys := distinctKeys_of_resolve hd hr
          have helement : element.DistinctKeys := hlist
          obtain ⟨found, hw⟩ := changeItemsAt_walked helement ih hc
          obtain ⟨found', hfound', hseen⟩ := hw.again
          exact ⟨found, (visits_list hr items).trans hw.visits, hw.state, .list hr hw.length hw.parts,
            found', (visits_list hr changed).trans hfound', hseen⟩
  | object members ih =>
      intro path d s value' s' hd h
      obtain ⟨target, hr⟩ := exists_resolve_of_changeAt (by simp) h
      cases ho : target.opens (.object members) with
      | false => exact ⟨_, walked_of_not_opens hr ho (by simp) h⟩
      | true =>
          obtain ⟨properties, nullable, rfl⟩ := Definition.eq_struct_of_opens ho
          rw [changeAt_struct hr] at h
          obtain ⟨⟨changed, last⟩, hc, he⟩ := map_eq_ok_iff.1 h
          cases he
          have hstruct : (Definition.struct properties nullable).DistinctKeys :=
            distinctKeys_of_resolve hd hr
          obtain ⟨hkeys, hparts⟩ := hstruct
          obtain ⟨found, hw⟩ := changePropertiesAt_walked ih rfl hkeys hparts hc
          obtain ⟨found', hfound', hseen⟩ := hw.again
          exact ⟨found, (visits_struct hr members).trans hw.visits, hw.state,
            .struct hr hw.keys hw.parts hw.others, found', (visits_struct hr changed).trans hfound', hseen⟩
  | _ =>
      intro path d s value' s' _ h
      obtain ⟨target, hr⟩ := exists_resolve_of_changeAt (by simp) h
      exact ⟨_, walked_of_not_opens hr (by cases target <;> rfl) (by simp) h⟩

/-! ## Content -/

theorem walked_of_changeContent {content content' : Json} {s s' : σ}
    (h : schema.changeContent visitor content s = .ok (content', s')) :
    ∃ root found, schema.root = .ok root ∧
      Walked schema visitor [] root content content' s s' found := by
  cases hroot : schema.root with
  | error e =>
      rw [changeContent_of_root_error hroot] at h
      cases h
  | ok root =>
      rw [changeContent_eq hroot] at h
      obtain ⟨found, hwalked⟩ :=
        agrees schema visitor content _ _ _ _ _ (distinctKeys_of_root hroot) h
      exact ⟨root, found, rfl, hwalked⟩

/-- Content that is changed along a schema has the visits of the reading walk rewritten, in order. -/
theorem rewrites_of_changeContent {content content' : Json} {s s' : σ}
    (h : schema.changeContent visitor content s = .ok (content', s')) :
    ∃ root found, schema.root = .ok root ∧ schema.visitContent content = .ok found ∧
      s' = visitor.final found s ∧
      Rewrites schema (Traced (visitor.trace found s)) root content content' := by
  obtain ⟨root, found, hroot, hwalked⟩ := walked_of_changeContent h
  have hstate := hwalked.state
  have hrewrites := hwalked.rewrites
  rw [Visit.seenFrom_root] at hstate hrewrites
  exact ⟨root, found, hroot, visitContent_eq_ok_iff.2 ⟨root, hroot, hwalked.visits⟩, hstate, hrewrites⟩

/-- Walking changed content finds, in the same order, what the visitor put in the places of the visits. -/
theorem visitContent_of_changeContent {content content' : Json} {s s' : σ} {found : List Visit}
    (h : schema.changeContent visitor content s = .ok (content', s'))
    (hv : schema.visitContent content = .ok found) :
    schema.visitContent content' = .ok (Visit.replaced (visitor.trace found s)) := by
  obtain ⟨root, walked, hroot, hwalked⟩ := walked_of_changeContent h
  have hsame : walked = found := Except.ok.inj
    ((visitContent_eq_ok_iff.2 ⟨root, hroot, hwalked.visits⟩).symm.trans hv)
  subst hsame
  obtain ⟨found', hfound', hseen⟩ := hwalked.again
  rw [Visit.seenFrom_root, Visit.seenFrom_root] at hseen
  rw [← hseen]
  exact visitContent_eq_ok_iff.2 ⟨root, hroot, hfound'⟩

theorem value_ne_null_of_mem_visitContent {content : Json} {found : List Visit}
    (hv : schema.visitContent content = .ok found) {visit : Visit} (hm : visit ∈ found) :
    visit.value ≠ .null := by
  obtain ⟨root, -, hvisits⟩ := visitContent_eq_ok_iff.1 hv
  exact ((mem_visits_iff hvisits).1 hm).2.1

/-- Walking content whose visited values are mapped finds what the map gives for each of them. -/
theorem visitContent_of_mapVisited {f : Visit → Json} {content content' : Json} {found : List Visit}
    (h : schema.mapVisited f content = .ok content') (hv : schema.visitContent content = .ok found)
    (hf : ∀ visit, visit.value ≠ .null → f visit ≠ .null) :
    schema.visitContent content' = .ok (found.map (Visit.mapped f)) := by
  obtain ⟨⟨changed, s'⟩, hc, rfl⟩ := map_eq_ok_iff.1 h
  rw [visitContent_of_changeContent hc hv, Visitor.replaced_trace_of_stateless]
  exact fun visit hm => hf visit (value_ne_null_of_mem_visitContent hv hm)

/-- Content whose visited values are mapped has what the map gives at the visited positions. -/
theorem rewrites_of_mapVisited {f : Visit → Json} {content content' : Json}
    (h : schema.mapVisited f content = .ok content') :
    ∃ root found, schema.root = .ok root ∧ schema.visitContent content = .ok found ∧
      Rewrites schema (fun d value value' => ∃ path, value' = f ⟨d, path, value⟩) root
        content content' := by
  obtain ⟨⟨changed, s'⟩, hc, rfl⟩ := map_eq_ok_iff.1 h
  obtain ⟨root, found, hroot, hv, -, hr⟩ := rewrites_of_changeContent hc
  exact ⟨root, found, hroot, hv, hr.mono fun _ _ _ _ _ ⟨path, hp⟩ =>
    ⟨path, Visitor.eq_of_mem_trace_of_stateless hp⟩⟩

end Schema

end ContentStore

import ContentStore.Proofs.Content.Walk

/-!
# Rewriting the visited positions of a value

The relation between a value and what becomes of it where only the visited positions of a walk change: at
those a given relation holds, and everywhere else nothing is different.
-/

namespace ContentStore

/-- No value but null becomes null. -/
def KeepsNonnull (r : Definition → Json → Json → Prop) : Prop :=
  ∀ ⦃d value value'⦄, value ≠ .null → r d value value' → value' ≠ .null

/-- What a change of the visited positions leaves in common between a value and the changed one: `r`
holds at the visited positions, declared members and items correspond, and the rest is the same. -/
inductive Rewrites (schema : Schema) (r : Definition → Json → Json → Prop) :
    Definition → Json → Json → Prop where
  | null {d : Definition} : Rewrites schema r d .null .null
  | struct {d : Definition} {properties : List (String × Definition)} {nullable : SortedSet String}
      {members changed : List (String × Json)}
      (resolved : schema.resolve d = .ok (.struct properties nullable))
      (keys : Entries.keys changed = Entries.keys members)
      (declared : ∀ key part value value', (key, part) ∈ properties →
        members.lookup key = some value → changed.lookup key = some value' →
        Rewrites schema r part value value')
      (others : ∀ key, key ∉ Entries.keys properties → changed.lookup key = members.lookup key) :
      Rewrites schema r d (.object members) (.object changed)
  | list {d element : Definition} {items changed : List Json}
      (resolved : schema.resolve d = .ok (.list element)) (length : changed.length = items.length)
      (parts : ∀ (place : Nat) value value', items[place]? = some value → changed[place]? = some value' →
        Rewrites schema r element value value') :
      Rewrites schema r d (.array items) (.array changed)
  | visited {d target : Definition} {value value' : Json} (resolved : schema.resolve d = .ok target)
      (visited : target.isVisited = true) (nonnull : value ≠ .null) (related : r target value value') :
      Rewrites schema r d value value'
  | kept {d target : Definition} {value : Json} (resolved : schema.resolve d = .ok target)
      (unvisited : target.isVisited = false) (closed : target.opens value = false) :
      Rewrites schema r d value value

namespace Rewrites

variable {schema : Schema} {r : Definition → Json → Json → Prop} {d : Definition} {value value' : Json}

theorem mono {r' : Definition → Json → Json → Prop} (h : Rewrites schema r d value value')
    (hr : ∀ d value value', d.isVisited = true → value ≠ .null → r d value value' → r' d value value') :
    Rewrites schema r' d value value' := by
  induction h with
  | null => exact .null
  | struct resolved keys _ others ih =>
      exact .struct resolved keys (fun key part v v' hp hv hv' => ih key part v v' hp hv hv') others
  | list resolved length _ ih =>
      exact .list resolved length fun place v v' hv hv' => ih place v v' hv hv'
  | visited resolved visited nonnull related =>
      exact .visited resolved visited nonnull (hr _ _ _ visited nonnull related)
  | kept resolved unvisited closed => exact .kept resolved unvisited closed

/-! ### What a rewriting is, by the definition at the root -/

theorem of_struct {properties : List (String × Definition)} {nullable : SortedSet String}
    {members : List (String × Json)} (resolved : schema.resolve d = .ok (.struct properties nullable))
    (h : Rewrites schema r d (.object members) value') :
    ∃ changed, value' = .object changed ∧ Entries.keys changed = Entries.keys members ∧
      (∀ key part value value', (key, part) ∈ properties → members.lookup key = some value →
        changed.lookup key = some value' → Rewrites schema r part value value') ∧
      ∀ key, key ∉ Entries.keys properties → changed.lookup key = members.lookup key := by
  cases h with
  | struct resolved' keys declared others =>
      cases resolved.symm.trans resolved'
      exact ⟨_, rfl, keys, declared, others⟩
  | visited resolved' visited =>
      cases resolved.symm.trans resolved'
      cases visited
  | kept resolved' _ closed =>
      cases resolved.symm.trans resolved'
      cases closed

theorem of_list {element : Definition} {items : List Json}
    (resolved : schema.resolve d = .ok (.list element))
    (h : Rewrites schema r d (.array items) value') :
    ∃ changed, value' = .array changed ∧ changed.length = items.length ∧
      ∀ (place : Nat) value value', items[place]? = some value → changed[place]? = some value' →
        Rewrites schema r element value value' := by
  cases h with
  | list resolved' length parts =>
      cases resolved.symm.trans resolved'
      exact ⟨_, rfl, length, parts⟩
  | visited resolved' visited =>
      cases resolved.symm.trans resolved'
      cases visited
  | kept resolved' _ closed =>
      cases resolved.symm.trans resolved'
      cases closed

theorem of_visited {target : Definition} (resolved : schema.resolve d = .ok target)
    (visited : target.isVisited = true) (nonnull : value ≠ .null)
    (h : Rewrites schema r d value value') : r target value value' := by
  cases h with
  | null => exact absurd rfl nonnull
  | struct resolved' =>
      cases resolved.symm.trans resolved'
      cases visited
  | list resolved' =>
      cases resolved.symm.trans resolved'
      cases visited
  | visited resolved' _ _ related =>
      cases resolved.symm.trans resolved'
      exact related
  | kept resolved' unvisited =>
      cases resolved.symm.trans resolved'
      simp [visited] at unvisited

theorem eq_of_kept {target : Definition} (resolved : schema.resolve d = .ok target)
    (unvisited : target.isVisited = false) (closed : target.opens value = false)
    (h : Rewrites schema r d value value') : value' = value := by
  cases h with
  | null => rfl
  | struct resolved' =>
      cases resolved.symm.trans resolved'
      cases closed
  | list resolved' =>
      cases resolved.symm.trans resolved'
      cases closed
  | visited resolved' visited =>
      cases resolved.symm.trans resolved'
      simp [visited] at unvisited
  | kept => rfl

theorem eq_null (h : Rewrites schema r d .null value') : value' = .null := by
  cases h with
  | visited _ _ nonnull => exact absurd rfl nonnull
  | _ => rfl

theorem isNull_eq (hr : KeepsNonnull r) (h : Rewrites schema r d value value') :
    value'.isNull = value.isNull := by
  cases h with
  | visited _ _ nonnull related =>
      have hv : value.isNull = false := by simpa [← Json.isNull_iff] using nonnull
      have hv' : value'.isNull = false := by simpa [← Json.isNull_iff] using hr nonnull related
      rw [hv, hv']
  | _ => rfl

/-- A rewriting that makes nothing null may be read backwards. -/
theorem symm (hr : KeepsNonnull r) (h : Rewrites schema r d value value') :
    Rewrites schema (fun d value value' => r d value' value) d value' value := by
  induction h with
  | null => exact .null
  | struct resolved keys _ others ih =>
      refine .struct resolved keys.symm ?_ fun key hk => (others key hk).symm
      intro key part first last hp hfirst hlast
      exact ih key part last first hp hlast hfirst
  | list resolved length _ ih =>
      refine .list resolved length.symm ?_
      intro place first last hfirst hlast
      exact ih place last first hlast hfirst
  | visited resolved visited nonnull related =>
      exact .visited resolved visited (hr nonnull related) related
  | kept resolved unvisited closed => exact .kept resolved unvisited closed

/-- Rewriting in two steps is rewriting by the two relations one after the other. -/
theorem comp {r' : Definition → Json → Json → Prop} {value'' : Json} (hr : KeepsNonnull r)
    (h : Rewrites schema r d value value') (h' : Rewrites schema r' d value' value'') :
    Rewrites schema (fun d value value'' => ∃ value', r d value value' ∧ r' d value' value'') d
      value value'' := by
  induction h generalizing value'' with
  | null =>
      cases h'.eq_null
      exact .null
  | struct resolved keys _ others ih =>
      obtain ⟨changed, rfl, keys', declared', others'⟩ := h'.of_struct resolved
      refine .struct resolved (keys'.trans keys) ?_ fun key hk =>
        (others' key hk).trans (others key hk)
      intro key part first last hp hfirst hlast
      obtain ⟨middle, hmiddle⟩ := Entries.exists_lookup_of_keys_eq keys hfirst
      exact ih key part first middle hp hfirst hmiddle
        (declared' key part middle last hp hmiddle hlast)
  | list resolved length _ ih =>
      obtain ⟨changed, rfl, length', parts'⟩ := h'.of_list resolved
      refine .list resolved (length'.trans length) ?_
      intro place first last hfirst hlast
      obtain ⟨hplace, -⟩ := List.getElem?_eq_some_iff.1 hfirst
      have hmiddle := List.getElem?_eq_getElem (length ▸ hplace)
      exact ih place first _ hfirst hmiddle (parts' place _ last hmiddle hlast)
  | visited resolved visited nonnull related =>
      exact .visited resolved visited nonnull
        ⟨_, related, h'.of_visited resolved visited (hr nonnull related)⟩
  | kept resolved unvisited closed =>
      cases h'.eq_of_kept resolved unvisited closed
      exact .kept resolved unvisited closed

end Rewrites

/-! ## The visits of a rewritten value -/

/-- A visit of a value and the visit of the rewritten value at the same position. -/
structure Visit.Rewritten (r : Definition → Json → Json → Prop) (before after : Visit) : Prop where
  definition : after.definition = before.definition
  path : after.path = before.path
  related : r before.definition before.value after.value

theorem Visit.Rewritten.under {r : Definition → Json → Json → Prop} {before after : Visit}
    (h : Visit.Rewritten r before after) (segment : Segment) :
    Visit.Rewritten r (before.under segment) (after.under segment) where
  definition := h.definition
  path := congrArg (segment :: ·) h.path
  related := h.related

theorem Visit.Rewritten.of_under {r : Definition → Json → Json → Prop} {before after : Visit}
    {segment : Segment} (h : Visit.Rewritten r (before.under segment) (after.under segment)) :
    Visit.Rewritten r before after where
  definition := h.definition
  path := (List.cons.inj h.path).2
  related := h.related

private theorem map_under_rewritten {ε : Type} {r : Definition → Json → Json → Prop} {segment : Segment}
    {before after : Except ε (List Visit)}
    (h : ∀ found, before = .ok found → ∃ found', after = .ok found' ∧
      List.Forall₂ (Visit.Rewritten r) found found') {found : List Visit}
    (hb : before.map (List.map (Visit.under segment)) = .ok found) :
    ∃ found', after.map (List.map (Visit.under segment)) = .ok found' ∧
      List.Forall₂ (Visit.Rewritten r) found found' := by
  obtain ⟨here, hbefore, rfl⟩ := map_eq_ok_iff.1 hb
  obtain ⟨here', hafter, hrel⟩ := h here hbefore
  refine ⟨here'.map (Visit.under segment), map_eq_ok_iff.2 ⟨here', hafter, rfl⟩, ?_⟩
  rw [List.forall₂_map_left_iff, List.forall₂_map_right_iff]
  exact hrel.imp fun _ _ hv => hv.under segment

namespace Rewrites

variable {schema : Schema} {r : Definition → Json → Json → Prop} {d : Definition} {value value' : Json}

/-- A rewritten value is visited at the positions of the value, in the same order. -/
theorem exists_visits (hr : KeepsNonnull r) (h : Rewrites schema r d value value') {found : List Visit}
    (hv : schema.visits value d = .ok found) :
    ∃ found', schema.visits value' d = .ok found' ∧ List.Forall₂ (Visit.Rewritten r) found found' := by
  induction h generalizing found with
  | null =>
      cases (Schema.visits_null schema _).symm.trans hv
      exact ⟨[], Schema.visits_null schema _, .nil⟩
  | @struct d properties nullable members changed resolved keys declared others ih =>
      rw [Schema.visits_struct resolved] at hv ⊢
      refine gather_related ?_ hv
      rw [List.forall₂_map_left_iff, List.forall₂_map_right_iff, List.forall₂_same]
      rintro ⟨key, part⟩ hp
      simp only [Schema.propertyVisits]
      cases hl : members.lookup key with
      | none =>
          rw [Entries.lookup_eq_none_of_keys_eq keys hl]
          rintro _ ⟨⟩
          exact ⟨[], rfl, .nil⟩
      | some first =>
          obtain ⟨last, hlast⟩ := Entries.exists_lookup_of_keys_eq keys hl
          rw [hlast]
          intro found
          exact map_under_rewritten fun _ => ih key part first last hp hl hlast
  | @list d element items changed resolved length parts ih =>
      rw [Schema.visits_list resolved] at hv ⊢
      refine gather_related ?_ hv
      rw [List.forall₂_map_left_iff, List.forall₂_map_right_iff, List.forall₂_iff_get]
      refine ⟨by simp [length], ?_⟩
      intro place hplace hplace'
      simp only [List.get_eq_getElem, List.getElem_zipIdx, Nat.zero_add, Schema.placeVisits]
      intro found
      exact map_under_rewritten fun _ =>
        ih place _ _ (List.getElem?_eq_getElem _) (List.getElem?_eq_getElem _)
  | @visited d target first last resolved visited nonnull related =>
      rw [Schema.visits_visited resolved visited nonnull] at hv
      cases hv
      exact ⟨_, Schema.visits_visited resolved visited (hr nonnull related),
        .cons ⟨rfl, rfl, related⟩ .nil⟩
  | @kept d target value resolved unvisited closed =>
      refine ⟨found, hv, ?_⟩
      by_cases hn : value = .null
      · subst hn
        cases (Schema.visits_null schema _).symm.trans hv
        exact .nil
      · rw [Schema.visits_of_not_opens resolved closed hn] at hv
        cases hv
        simp [Schema.visitsHere, unvisited]

/-- Rewritten content is visited at the positions of the content, in the same order. -/
theorem exists_visitContent {root : Definition} (hroot : schema.root = .ok root) (hr : KeepsNonnull r)
    (h : Rewrites schema r root value value') {found : List Visit}
    (hv : schema.visitContent value = .ok found) :
    ∃ found', schema.visitContent value' = .ok found' ∧
      List.Forall₂ (Visit.Rewritten r) found found' := by
  obtain ⟨root', hroot', hwalk⟩ := Schema.visitContent_eq_ok_iff.1 hv
  cases hroot.symm.trans hroot'
  obtain ⟨found', hfound', hrewritten⟩ := h.exists_visits hr hwalk
  exact ⟨found', Schema.visitContent_eq_ok_iff.2 ⟨root, hroot, hfound'⟩, hrewritten⟩

end Rewrites

/-! ## Values that differ at visited positions alone -/

/-- Two values that are the same but at the visited positions, where neither is null. -/
def Framed (schema : Schema) : Definition → Json → Json → Prop :=
  Rewrites schema fun _ value value' => value ≠ .null ∧ value' ≠ .null

namespace Framed

variable {schema : Schema} {r : Definition → Json → Json → Prop} {d : Definition}
  {value value' value'' : Json}

theorem of_rewrites (hr : KeepsNonnull r) (h : Rewrites schema r d value value') :
    Framed schema d value value' :=
  h.mono fun _ _ _ _ hn hrelated => ⟨hn, hr hn hrelated⟩

theorem keepsNonnull : KeepsNonnull fun _ value value' => value ≠ .null ∧ value' ≠ .null :=
  fun _ _ _ _ h => h.2

theorem symm (h : Framed schema d value value') : Framed schema d value' value :=
  (Rewrites.symm keepsNonnull h).mono fun _ _ _ _ _ hn => ⟨hn.2, hn.1⟩

theorem trans (h : Framed schema d value value') (h' : Framed schema d value' value'') :
    Framed schema d value value'' :=
  (h.comp keepsNonnull h').mono fun _ _ _ _ _ ⟨_, hn, hn'⟩ => ⟨hn.1, hn'.2⟩

/-- A walk finds as many positions in the one value as in the other. -/
theorem length_visits (h : Framed schema d value value') {found found' : List Visit}
    (hv : schema.visits value d = .ok found) (hv' : schema.visits value' d = .ok found') :
    found.length = found'.length := by
  obtain ⟨others, hothers, hrewritten⟩ := h.exists_visits keepsNonnull hv
  cases hv'.symm.trans hothers
  exact hrewritten.length_eq

private theorem length_map_under {ε : Type} {segment : Segment} {part other : Except ε (List Visit)}
    (h : ∀ here here', part = .ok here → other = .ok here' → here.length = here'.length) :
    ∀ here here', part.map (List.map (Visit.under segment)) = .ok here →
      other.map (List.map (Visit.under segment)) = .ok here' → here.length = here'.length := by
  intro here here' hp ho
  obtain ⟨below, hbelow, rfl⟩ := map_eq_ok_iff.1 hp
  obtain ⟨below', hbelow', rfl⟩ := map_eq_ok_iff.1 ho
  simpa using h below below' hbelow hbelow'

private theorem rewritten_below {ε : Type} {segment : Segment} {part other : Except ε (List Visit)}
    (h : ∃ here here', part.map (List.map (Visit.under segment)) = .ok here ∧
      other.map (List.map (Visit.under segment)) = .ok here' ∧
      List.Forall₂ (Visit.Rewritten r) here here') :
    ∃ below below', part = .ok below ∧ other = .ok below' ∧
      List.Forall₂ (Visit.Rewritten r) below below' := by
  obtain ⟨_, _, hp, ho, hrelated⟩ := h
  obtain ⟨below, hbelow, rfl⟩ := map_eq_ok_iff.1 hp
  obtain ⟨below', hbelow', rfl⟩ := map_eq_ok_iff.1 ho
  rw [List.forall₂_map_left_iff, List.forall₂_map_right_iff] at hrelated
  exact ⟨below, below', hbelow, hbelow', hrelated.imp fun _ _ hv => hv.of_under⟩

/-- What holds between the visits of the one value and those of the other, in order, makes the one a
rewriting of the other. -/
theorem rewrites_of_visits (h : Framed schema d value value') {found found' : List Visit}
    (hv : schema.visits value d = .ok found) (hv' : schema.visits value' d = .ok found')
    (hrelated : List.Forall₂ (Visit.Rewritten r) found found') : Rewrites schema r d value value' := by
  -- The visits of each part are found again in those of the whole, since frames keep their number.
  induction h generalizing found found' with
  | null => exact .null
  | @struct d properties nullable members changed resolved keys declared others ih =>
      rw [Schema.visits_struct resolved] at hv hv'
      refine .struct resolved keys ?_ others
      intro key part first last hp hfirst hlast
      have hparts := forall₂_of_gather ?_ hv hv' hrelated
      · rw [List.forall₂_map_left_iff, List.forall₂_map_right_iff, List.forall₂_same] at hparts
        have hpart := hparts (key, part) hp
        simp only [Schema.propertyVisits, hfirst, hlast] at hpart
        obtain ⟨below, below', hbelow, hbelow', hrewritten⟩ := rewritten_below hpart
        exact ih key part first last hp hfirst hlast hbelow hbelow' hrewritten
      · rw [List.forall₂_map_left_iff, List.forall₂_map_right_iff, List.forall₂_same]
        rintro ⟨other, otherPart⟩ hother
        simp only [Schema.propertyVisits]
        cases hl : members.lookup other with
        | none =>
            rw [Entries.lookup_eq_none_of_keys_eq keys hl]
            rintro _ _ ⟨⟩ ⟨⟩
            rfl
        | some first =>
            obtain ⟨last, hlast⟩ := Entries.exists_lookup_of_keys_eq keys hl
            rw [hlast]
            exact length_map_under fun _ _ =>
              length_visits (declared other otherPart first last hother hl hlast)
  | @list d element items changed resolved length parts ih =>
      rw [Schema.visits_list resolved] at hv hv'
      refine .list resolved length ?_
      intro place first last hfirst hlast
      have hparts := forall₂_of_gather ?_ hv hv' hrelated
      · rw [List.forall₂_map_left_iff, List.forall₂_map_right_iff] at hparts
        obtain ⟨hplace, rfl⟩ := List.getElem?_eq_some_iff.1 hfirst
        obtain ⟨hplace', rfl⟩ := List.getElem?_eq_some_iff.1 hlast
        have hpart := (List.forall₂_iff_get.1 hparts).2 place (by simpa using hplace)
          (by simpa using hplace')
        simp only [List.get_eq_getElem, List.getElem_zipIdx, Nat.zero_add, Schema.placeVisits] at hpart
        obtain ⟨below, below', hbelow, hbelow', hrewritten⟩ := rewritten_below hpart
        exact ih place _ _ hfirst hlast hbelow hbelow' hrewritten
      · rw [List.forall₂_map_left_iff, List.forall₂_map_right_iff, List.forall₂_iff_get]
        refine ⟨by simp [length], ?_⟩
        intro other hother hother'
        simp only [List.get_eq_getElem, List.getElem_zipIdx, Nat.zero_add, Schema.placeVisits]
        exact length_map_under fun _ _ => length_visits
          (parts other _ _ (List.getElem?_eq_getElem _) (List.getElem?_eq_getElem _))
  | @visited d target first last resolved visited nonnull related =>
      rw [Schema.visits_visited resolved visited nonnull] at hv
      rw [Schema.visits_visited resolved visited related.2] at hv'
      cases hv
      cases hv'
      obtain ⟨hvisit, -⟩ := List.forall₂_cons.1 hrelated
      exact .visited resolved visited nonnull hvisit.related
  | kept resolved unvisited closed => exact .kept resolved unvisited closed

/-- What holds between the visits of two contents makes the one a rewriting of the other. -/
theorem rewrites_of_visitContent {root : Definition} (hroot : schema.root = .ok root)
    (h : Framed schema root value value') {found found' : List Visit}
    (hv : schema.visitContent value = .ok found) (hv' : schema.visitContent value' = .ok found')
    (hrelated : List.Forall₂ (Visit.Rewritten r) found found') :
    Rewrites schema r root value value' := by
  obtain ⟨start, hstart, hwalk⟩ := Schema.visitContent_eq_ok_iff.1 hv
  obtain ⟨start', hstart', hwalk'⟩ := Schema.visitContent_eq_ok_iff.1 hv'
  cases hroot.symm.trans hstart
  cases hroot.symm.trans hstart'
  exact h.rewrites_of_visits hwalk hwalk' hrelated

end Framed

end ContentStore

import ContentStore.Proofs.Id.Proto
import ContentStore.Proofs.Values
import Mathlib.Data.List.Nodup

/-!
# Resolving by position

A mapping changes exactly the proto ids of its own kind at the positions that it knows: those of the list
it is made from, and those set since, by what was set last. No id of an entity is a proto id, so that
resolving with ids is done once and for all.
-/

namespace ContentStore

namespace IdMapping

variable {mapping : IdMapping}

def values (mapping : IdMapping) : List String :=
  mapping.entries.entries.map Prod.snd

/-- A text is left as it is, or it names a position and becomes the id there. -/
theorem resolve_eq_or_mem (mapping : IdMapping) (text : String) :
    mapping.resolve text = text ∨ ∃ p : ProtoId, p.kind = mapping.kind ∧ text = p.text ∧
      (p.index, mapping.resolve text) ∈ mapping.entries.entries := by
  unfold resolve
  cases hp : ProtoId.ofKind? mapping.kind text with
  | none => exact .inl rfl
  | some p =>
      obtain ⟨rfl, hkind⟩ := ProtoId.ofKind?_eq_some_iff.1 hp
      simp only [Option.bind_some, get?, hkind, if_true]
      cases hget : mapping.entries.get? p.index with
      | none => exact .inl rfl
      | some id => exact .inr ⟨p, hkind, rfl, Entries.mem_of_lookup hget⟩

theorem resolve_eq_or_mem_values (mapping : IdMapping) (text : String) :
    mapping.resolve text = text ∨ mapping.resolve text ∈ mapping.values :=
  (mapping.resolve_eq_or_mem text).imp_right fun ⟨_, _, _, hmem⟩ =>
    List.mem_map_of_mem (f := Prod.snd) hmem

/-- Texts that no position stands for are told apart. -/
theorem eq_of_resolve_eq (hn : mapping.values.Nodup) {a b : String} (ha : a ∉ mapping.values)
    (hb : b ∉ mapping.values) (h : mapping.resolve a = mapping.resolve b) : a = b := by
  rcases mapping.resolve_eq_or_mem a with hself | ⟨p, hkind, rfl, hp⟩
  · rcases mapping.resolve_eq_or_mem_values b with hother | hmem
    · exact hself.symm.trans (h.trans hother)
    · rw [← h, hself] at hmem
      exact absurd hmem ha
  · rcases mapping.resolve_eq_or_mem b with hother | ⟨q, hkind', rfl, hq⟩
    · have hmem := List.mem_map_of_mem (f := Prod.snd) hp
      rw [h, hother] at hmem
      exact absurd hmem hb
    · rw [h] at hp
      have hsame := List.inj_on_of_nodup_map hn hp hq rfl
      rw [ProtoId.ext (hkind.trans hkind'.symm) (congrArg Prod.fst hsame)]

/-- The mapping gives ids of entities only. -/
def HoldsIds (mapping : IdMapping) : Prop :=
  ∀ text ∈ mapping.values, ∃ (kind : Kind) (id : RealId kind), text = id.text

theorem resolve_protoId (mapping : IdMapping) (p : ProtoId) :
    mapping.resolve p.text = (mapping.get? p).getD p.text := by
  unfold resolve
  cases hp : ProtoId.ofKind? mapping.kind p.text with
  | some q =>
      have hpq : p = q := ProtoId.text_injective (ProtoId.ofKind?_eq_some_iff.1 hp).1
      rw [hpq, Option.bind_some]
  | none =>
      have hk : p.kind ≠ mapping.kind := by
        intro hk
        rw [ProtoId.ofKind?_eq_some_iff.2 ⟨rfl, hk⟩] at hp
        cases hp
      simp [get?, hk]

theorem resolve_of_not_protoId (mapping : IdMapping) {text : String}
    (h : ProtoId.ofText? text = none) : mapping.resolve text = text := by
  simp [resolve, ProtoId.ofKind?, h]

theorem mem_values_of_get? {p : ProtoId} {text : String} (h : mapping.get? p = some text) :
    text ∈ mapping.values := by
  unfold get? at h
  split at h
  · exact List.mem_map.2 ⟨(p.index, text), Entries.mem_of_lookup h, rfl⟩
  · cases h

/-- Of the proto ids that texts spell, those that the mapping knows are gone once it is applied. -/
theorem ofKind?_resolve (h : mapping.HoldsIds) (kind : Kind) (text : String) :
    ProtoId.ofKind? kind (mapping.resolve text) =
      (ProtoId.ofKind? kind text).filter fun p => (mapping.get? p).isNone := by
  cases hp : ProtoId.ofText? text with
  | none =>
      rw [resolve_of_not_protoId mapping hp]
      simp [ProtoId.ofKind?, hp]
  | some p =>
      obtain rfl := ProtoId.ofText?_eq_some_iff.1 hp
      rw [resolve_protoId]
      cases hget : mapping.get? p with
      | none =>
          by_cases hk : p.kind = kind <;> simp [ProtoId.ofKind?, Option.filter_some, hget, hk]
      | some found =>
          obtain ⟨other, id, rfl⟩ := h found (mem_values_of_get? hget)
          have hid : ProtoId.ofText? id.text = none := by
            refine Option.eq_none_iff_forall_ne_some.2 fun q hq => ?_
            exact id.text_ne_protoId q (ProtoId.ofText?_eq_some_iff.1 hq)
          by_cases hk : p.kind = kind <;> simp [ProtoId.ofKind?, Option.filter_some, hid, hget, hk]

/-- Proto ids read off resolved texts are those read off the texts, without the known ones. -/
theorem mem_protoIds_resolve_iff (h : mapping.HoldsIds) (kind : Kind) (texts : List String)
    (p : ProtoId) :
    p ∈ (texts.map mapping.resolve).filterMap (ProtoId.ofKind? kind) ↔
      p ∈ texts.filterMap (ProtoId.ofKind? kind) ∧ mapping.get? p = none := by
  simp only [List.filterMap_map, List.mem_filterMap, Function.comp_apply, ofKind?_resolve h,
    Option.filter_eq_some_iff, Option.isNone_iff_eq_none]
  grind

theorem holdsIds_ofIds {kind : Kind} (ids : List (RealId kind)) : (ofIds ids).HoldsIds := by
  intro text htext
  obtain ⟨entry, hentry, rfl⟩ := List.mem_map.1 htext
  obtain ⟨⟨found, place⟩, hfound, rfl⟩ := List.mem_map.1 (SortedMap.mem_of_mem_ofList hentry)
  obtain ⟨id, -, rfl⟩ := List.mem_map.1 (List.fst_mem_of_mem_zipIdx hfound)
  exact ⟨kind, id, rfl⟩

theorem resolve_id (mapping : IdMapping) {kind : Kind} (id : RealId kind) :
    mapping.resolve id.text = id.text :=
  mapping.resolve_of_not_protoId <| Option.eq_none_iff_forall_ne_some.2 fun p hp =>
    id.text_ne_protoId p (ProtoId.ofText?_eq_some_iff.1 hp)

/-- Resolving with ids leaves nothing to resolve. -/
theorem resolve_resolve (h : mapping.HoldsIds) (text : String) :
    mapping.resolve (mapping.resolve text) = mapping.resolve text := by
  rcases mapping.resolve_eq_or_mem_values text with hsame | hmem
  · rw [hsame, hsame]
  · obtain ⟨kind, id, hid⟩ := h _ hmem
    rw [hid, mapping.resolve_id]

theorem resolve_self (mapping : IdMapping) : mapping.resolve selfCollection = selfCollection :=
  mapping.resolve_of_not_protoId (by decide)

/-- No id is the sign for the own collection, so that only the sign itself is resolved to it. -/
theorem resolve_eq_self (h : mapping.HoldsIds) {text : String}
    (hself : mapping.resolve text = selfCollection) : text = selfCollection := by
  rcases mapping.resolve_eq_or_mem_values text with hsame | hmem
  · rw [← hsame, hself]
  · obtain ⟨kind, id, hid⟩ := h _ hmem
    exact absurd (hid.symm.trans hself) id.text_ne_self

/-! ## Positions -/

def insertAll (m : IdMapping) (entries : List (Nat × String)) : IdMapping :=
  entries.foldl (fun m entry => m.insert entry.1 entry.2) m

theorem insertAll_concat (m : IdMapping) (entries : List (Nat × String)) (entry : Nat × String) :
    m.insertAll (entries ++ [entry]) = (m.insertAll entries).insert entry.1 entry.2 := by
  simp [insertAll]

@[simp] theorem insertAll_kind (m : IdMapping) (entries : List (Nat × String)) :
    (m.insertAll entries).kind = m.kind := by
  induction entries using List.reverseRecOn with
  | nil => rfl
  | append_singleton entries entry ih => rw [insertAll_concat]; exact ih

/-- The last entry of a position is the one that counts, and before all entries what stood there. -/
theorem get?_insertAll (m : IdMapping) (entries : List (Nat × String)) (index : Nat) :
    (m.insertAll entries).entries.get? index =
      (entries.reverse.lookup index).or (m.entries.get? index) := by
  induction entries using List.reverseRecOn with
  | nil => rfl
  | append_singleton entries entry ih =>
      rw [insertAll_concat, List.reverse_append, List.reverse_singleton, List.singleton_append]
      by_cases hindex : index = entry.1
      · subst hindex
        rw [insert, SortedMap.get?_insert_self, List.lookup_cons, beq_self_eq_true, Option.some_or]
      · have hne : (index == entry.1) = false := by simpa using hindex
        rw [insert, SortedMap.get?_insert_of_ne _ hindex, ih, List.lookup_cons, hne]

/-- The entries of a list by position are in order. -/
theorem ascending_zipIdx (texts : List String) (first : Nat) :
    Entries.Ascending ((texts.zipIdx first).map fun entry => (entry.2, entry.1)) := by
  induction texts generalizing first with
  | nil => exact List.Pairwise.nil
  | cons text rest ih =>
      refine List.pairwise_cons.2 ⟨?_, ih (first + 1)⟩
      intro entry hentry
      obtain ⟨⟨other, index⟩, hmem, rfl⟩ := List.mem_map.1 hentry
      have hle : first + 1 ≤ index := (List.mem_zipIdx hmem).1
      exact Nat.compare_eq_lt.2 hle

theorem lookup_zipIdx (texts : List String) (first index : Nat) :
    ((texts.zipIdx first).map fun entry => (entry.2, entry.1)).lookup (first + index) =
      texts[index]? := by
  induction texts generalizing first index with
  | nil => rfl
  | cons text rest ih =>
      cases index with
      | zero => simp
      | succ index =>
          have hne : (first + (index + 1) == first) = false := by simp
          have hnext := ih (first + 1) index
          rw [Nat.add_right_comm, Nat.add_assoc] at hnext
          simpa [List.lookup_cons, hne] using hnext

theorem get?_ofList (kind : Kind) (ids : List String) (index : Nat) :
    (ofList kind ids).entries.get? index = ids[index]? := by
  have hlookup := lookup_zipIdx ids 0 index
  rw [Nat.zero_add] at hlookup
  rw [← hlookup]
  exact congrArg (List.lookup index) (Entries.sort_of_ascending (ascending_zipIdx ids 0))

/-- A mapping of a kind stands, at the positions that have a value, for these values: their proto ids are
replaced, and every other text stays. References of the kind are resolved alike, those of another kind are
left alone, and where there is no reference there is none afterwards. -/
structure ResolvesBy (mapping : IdMapping) (kind : Kind) (value? : Nat → Option String) : Prop where
  known : ∀ p : ProtoId, p.kind = kind → ∀ id, value? p.index = some id → mapping.resolve p.text = id
  unknown : ∀ text, (∀ p : ProtoId, text = p.text → p.kind = kind → value? p.index = none) →
    mapping.resolve text = text
  own : ∀ text, mapping.resolveAs kind (some text) = some (mapping.resolve text)
  foreign : ∀ other ≠ kind, ∀ text, mapping.resolveAs other (some text) = some text
  absent : ∀ other, mapping.resolveAs other none = none

theorem resolvesBy_entries (mapping : IdMapping) :
    mapping.ResolvesBy mapping.kind mapping.entries.get? where
  known p hkind id hid := by rw [resolve_protoId, get?, if_pos hkind, hid, Option.getD_some]
  unknown text h := by
    cases hp : ProtoId.ofText? text with
    | none => exact mapping.resolve_of_not_protoId hp
    | some p =>
        obtain rfl := ProtoId.ofText?_eq_some_iff.1 hp
        rw [resolve_protoId, get?]
        by_cases hkind : p.kind = mapping.kind
        · rw [if_pos hkind, h p rfl hkind, Option.getD_none]
        · rw [if_neg hkind, Option.getD_none]
  own text := by rw [resolveAs, Option.map_some, if_pos rfl]
  foreign other hother text := by rw [resolveAs, Option.map_some, if_neg hother.symm]
  absent other := rfl

theorem ResolvesBy.of_get?_eq {kind : Kind} {value? : Nat → Option String} (hkind : mapping.kind = kind)
    (hget : ∀ index, mapping.entries.get? index = value? index) : mapping.ResolvesBy kind value? := by
  subst hkind
  rw [← funext hget]
  exact mapping.resolvesBy_entries

/-- The mapping made from a list of ids resolves the proto ids of its kind by their places in the list and
nothing else: no position past the end, no other kind and no text in another form. With positions set
afterwards, the last setting of a position counts. No mapping changes the id of an entity or the sign for
the own collection, and one that holds ids alone has done all it can after one pass. -/
theorem resolve_by_position (kind : Kind) (ids : List String) :
    (ofList kind ids).ResolvesBy kind (ids[·]?) ∧
    (∀ entries : List (Nat × String), ((ofList kind ids).insertAll entries).ResolvesBy kind fun index =>
      (entries.reverse.lookup index).or ids[index]?) ∧
    (∀ (mapping : IdMapping) {other : Kind} (id : RealId other), mapping.resolve id.text = id.text) ∧
    (∀ mapping : IdMapping, mapping.resolve selfCollection = selfCollection) ∧
    (∀ ids : List (RealId kind), (ofIds ids).HoldsIds) ∧
    (∀ mapping : IdMapping, mapping.HoldsIds →
      ∀ text, mapping.resolve (mapping.resolve text) = mapping.resolve text) := by
  refine ⟨.of_get?_eq rfl (get?_ofList kind ids), fun entries => .of_get?_eq ?_ fun index => ?_,
    fun mapping _ => mapping.resolve_id, resolve_self, holdsIds_ofIds, fun _ => resolve_resolve⟩
  · exact insertAll_kind _ entries
  · rw [get?_insertAll, get?_ofList]

/-- Of two apps, the second one is set anew, twice, and a third one after the end of the list. -/
theorem resolve_by_position_of_reset :
    let apps := (ofList .app ["App_a", "App_b"]).insertAll [(1, "App_c"), (3, "App_d"), (1, "App_e")]
    apps.HoldsIds ∧ apps.resolve "ProtoApp_0" = "App_a" ∧ apps.resolve "ProtoApp_1" = "App_e" ∧
    apps.resolve "ProtoApp_2" = "ProtoApp_2" ∧ apps.resolve "ProtoApp_3" = "App_d" ∧
    apps.resolveAs .document (some "ProtoApp_1") = some "ProtoApp_1" ∧
    apps.resolve (apps.resolve "ProtoApp_1") = "App_e" := by
  intro apps
  have happs : apps.HoldsIds := by
    intro text htext
    have hshaped : ∀ text ∈ apps.values, RealId.shaped .app text = true := by decide
    exact ⟨.app, ⟨text, hshaped text htext⟩, rfl⟩
  obtain ⟨-, hset, -, -, -, htwice⟩ := resolve_by_position .app ["App_a", "App_b"]
  have hset := hset [(1, "App_c"), (3, "App_d"), (1, "App_e")]
  have hat : ∀ index (h : index < ProtoId.bound), ∀ id, _ → apps.resolve (ProtoId.textOf .app index) = id :=
    fun index h id => hset.known ⟨.app, index, rfl, h⟩ rfl id
  have hone : apps.resolve "ProtoApp_1" = "App_e" := hat 1 (by decide) _ rfl
  refine ⟨happs, hat 0 (by decide) _ rfl, hone, ?_, hat 3 (by decide) _ rfl, ?_, ?_⟩
  · refine hset.unknown _ fun p hp _ => ?_
    have hindex : p = ⟨.app, 2, rfl, by decide⟩ := ProtoId.text_injective (hp.symm.trans rfl)
    subst hindex
    rfl
  · exact hset.foreign .document (by decide) _
  · rw [htwice apps happs, hone]

end IdMapping

end ContentStore

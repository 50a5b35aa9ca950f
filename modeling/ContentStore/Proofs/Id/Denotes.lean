import ContentStore.Proofs.Id.Mapping

/-!
# What references denote

A reference of a pack denotes the id at the position that it names, or the id that it is. Resolving a
text by a mapping that lists the ids of a kind gives an id exactly where the text denotes it.
-/

namespace ContentStore

variable {kind : Kind}

/-- What a text denotes among the ids of one kind: a proto id of the kind denotes the id at its position,
and the id of an entity denotes itself. -/
inductive Denotes (ids : List (RealId kind)) : String → RealId kind → Prop where
  | position {p : ProtoId} {id : RealId kind} (hk : p.kind = kind) (h : ids[p.index]? = some id) :
      Denotes ids p.text id
  | real {id : RealId kind} : Denotes ids id.text id

theorem Denotes.append {ids : List (RealId kind)} {text : String} {id : RealId kind}
    (h : Denotes ids text id) (more : List (RealId kind)) : Denotes (ids ++ more) text id := by
  cases h with
  | @position p _ hk h =>
      obtain ⟨hlt, -⟩ := List.getElem?_eq_some_iff.1 h
      exact .position hk (by rw [List.getElem?_append_left hlt, h])
  | real => exact .real

theorem rel_denotes_append {ids : List (RealId kind)} {text : Option String} {id : Option (RealId kind)}
    (h : Option.Rel (Denotes ids) text id) (more : List (RealId kind)) :
    Option.Rel (Denotes (ids ++ more)) text id := by
  cases h with
  | none => exact .none
  | some hd => exact .some (hd.append more)

/-- A text denotes one id. -/
theorem Denotes.unique {ids : List (RealId kind)} {text : String} {a b : RealId kind}
    (ha : Denotes ids text a) (hb : Denotes ids text b) : a = b := by
  cases ha with
  | @position p _ _ ha =>
      generalize hp : p.text = text at hb
      cases hb with
      | @position q _ _ hb =>
          have hpq : p = q := by
            have := congrArg ProtoId.ofText? hp
            simpa using this
          subst hpq
          simpa [ha] using hb
      | real => exact absurd hp.symm (RealId.text_ne_protoId _ _)
  | real =>
      generalize ht : a.text = text at hb
      cases hb with
      | position => exact absurd ht (RealId.text_ne_protoId _ _)
      | real => exact RealId.ext ht

/-- With no ids to denote, a text denotes only the id that it is. -/
theorem Denotes.text_eq {text : String} {id : RealId kind} (h : Denotes [] text id) :
    text = id.text := by
  cases h with
  | position _ hindex => simp at hindex
  | real => rfl

/-- A proto id that denotes an id is one of the kind, and the id is at its position. -/
theorem Denotes.getElem?_eq {ids : List (RealId kind)} {p : ProtoId} {id : RealId kind}
    (h : Denotes ids p.text id) : p.kind = kind ∧ ids[p.index]? = some id := by
  generalize ht : p.text = text at h
  cases h with
  | @position q _ hk hindex =>
      cases ProtoId.text_injective ht
      exact ⟨hk, hindex⟩
  | real => exact absurd ht.symm (id.text_ne_protoId p)

namespace IdMapping

/-- The mapping knows the ids of a kind by their positions. -/
structure Lists (mapping : IdMapping) (ids : List (RealId kind)) : Prop where
  kind_eq : mapping.kind = kind
  get?_eq : ∀ index, mapping.entries.get? index = (ids[index]?).map RealId.text

theorem lists_empty (kind : Kind) : (IdMapping.empty kind).Lists ([] : List (RealId kind)) where
  kind_eq := rfl
  get?_eq _ := rfl

theorem Lists.insert {mapping : IdMapping} {ids : List (RealId kind)} (h : mapping.Lists ids)
    (id : RealId kind) : (mapping.insert ids.length id.text).Lists (ids ++ [id]) where
  kind_eq := h.kind_eq
  get?_eq index := by
    unfold IdMapping.insert
    by_cases hi : index = ids.length
    · subst hi
      simp
    · rw [SortedMap.get?_insert_of_ne _ hi, h.get?_eq]
      rcases Nat.lt_or_gt_of_ne hi with hlt | hgt
      · rw [List.getElem?_append_left hlt]
      · rw [List.getElem?_eq_none (by omega), List.getElem?_eq_none (by simp; omega)]

theorem lists_ofIds (ids : List (RealId kind)) : (IdMapping.ofIds ids).Lists ids where
  kind_eq := rfl
  get?_eq index := by rw [ofIds, get?_ofList, List.getElem?_map]

/-- Resolving gives an id exactly where the text denotes it. -/
theorem resolve_eq_iff {mapping : IdMapping} {ids : List (RealId kind)} (h : mapping.Lists ids)
    {text : String} {id : RealId kind} : mapping.resolve text = id.text ↔ Denotes ids text id := by
  obtain ⟨rfl, hget⟩ := h
  constructor
  · intro hr
    unfold resolve at hr
    cases hp : ProtoId.ofKind? mapping.kind text with
    | none =>
        rw [hp, Option.bind_none, Option.getD_none] at hr
        subst hr
        exact .real
    | some p =>
        obtain ⟨rfl, hk⟩ := ProtoId.ofKind?_eq_some_iff.1 hp
        rw [hp, Option.bind_some, get?, if_pos hk, hget] at hr
        cases hi : ids[p.index]? with
        | none =>
            rw [hi, Option.map_none, Option.getD_none] at hr
            exact absurd hr.symm (id.text_ne_protoId p)
        | some found =>
            rw [hi, Option.map_some, Option.getD_some] at hr
            exact .position hk (hi.trans (congrArg some (RealId.ext hr)))
  · intro hd
    cases hd with
    | @position p _ hk hi =>
        rw [resolve, ProtoId.ofKind?_eq_some_iff.2 ⟨rfl, hk⟩, Option.bind_some, get?, if_pos hk, hget, hi]
        rfl
    | real =>
        cases hp : ProtoId.ofKind? mapping.kind id.text with
        | none => rw [resolve, hp, Option.bind_none, Option.getD_none]
        | some p => exact absurd (ProtoId.ofKind?_eq_some_iff.1 hp).1 (id.text_ne_protoId p)

/-- Resolving leaves a text as it is, or gives the id of an entity. -/
theorem resolve_cases {mapping : IdMapping} {ids : List (RealId kind)} (h : mapping.Lists ids)
    (text : String) : mapping.resolve text = text ∨ ∃ id : RealId kind, mapping.resolve text = id.text := by
  obtain ⟨rfl, hget⟩ := h
  unfold resolve
  cases hp : ProtoId.ofKind? mapping.kind text with
  | none => exact .inl rfl
  | some p =>
      rw [Option.bind_some, get?, if_pos (ProtoId.ofKind?_eq_some_iff.1 hp).2, hget]
      cases ids[p.index]? with
      | none => exact .inl rfl
      | some id => exact .inr ⟨id, rfl⟩

theorem rel_of_resolve {mapping : IdMapping} {ids : List (RealId kind)} (h : mapping.Lists ids)
    {text : Option String} {id : Option (RealId kind)}
    (hr : text.map mapping.resolve = id.map RealId.text) : Option.Rel (Denotes ids) text id := by
  cases text <;> cases id
  · exact .none
  · cases hr
  · cases hr
  · exact .some ((resolve_eq_iff h).1 (Option.some.inj hr))

theorem forall₂_of_resolve {mapping : IdMapping} {ids : List (RealId kind)} (h : mapping.Lists ids)
    {texts : List String} {found : List (RealId kind)}
    (hr : texts.map mapping.resolve = found.map RealId.text) :
    List.Forall₂ (Denotes ids) texts found := by
  have hsame := List.forall₂_map_left_iff.1 (List.forall₂_map_right_iff.1
    (List.forall₂_eq_eq_eq ▸ hr))
  exact hsame.imp fun _ _ => (resolve_eq_iff h).1

end IdMapping

end ContentStore

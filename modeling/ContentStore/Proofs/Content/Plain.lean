import ContentStore.Proofs.Content.Scanning

/-!
# Content without placeholders

Resolving the ids in content replaces proto ids alone. Content whose document references hold none stays
what it is, provided that each of its objects has every key once, as content that was read from text has.
-/

namespace ContentStore

namespace Entries

theorem Ascending.nodup_keys {V : Type} {entries : List (String × V)} (h : Ascending entries) :
    (keys entries).Nodup := by
  refine List.pairwise_map.2 (List.Pairwise.imp ?_ h)
  intro a b hlt heq
  have hself : compare b.1 b.1 = .eq := Std.ReflCmp.compare_self
  rw [heq, hself] at hlt
  cases hlt

/-- Entries with distinct keys are the same as others with the same keys under which the same is found. -/
theorem eq_of_lookup_eq {V : Type} {entries others : List (String × V)} (hn : (keys entries).Nodup)
    (hk : keys others = keys entries) (h : ∀ key, others.lookup key = entries.lookup key) :
    others = entries := by
  induction entries generalizing others with
  | nil => exact List.map_eq_nil_iff.1 hk
  | cons entry rest ih =>
      obtain ⟨key, value⟩ := entry
      cases others with
      | nil => cases hk
      | cons other others =>
          obtain ⟨key', value'⟩ := other
          obtain ⟨hhead, htail⟩ := List.cons.inj hk
          cases hhead
          obtain ⟨hfresh, hrest⟩ := List.nodup_cons.1 hn
          have hvalue : value' = value := by simpa using h key
          subst hvalue
          have hothers : others = rest := by
            refine ih hrest htail fun other => ?_
            by_cases hother : other = key
            · subst hother
              have hnone : rest.lookup other = none := by
                rw [← Option.not_isSome_iff_eq_none, lookup_isSome_iff]
                exact hfresh
              rw [hnone, lookup_eq_none_of_keys_eq htail hnone]
            · have hb : (other == key) = false := by simpa using hother
              simpa [List.lookup_cons, hb] using h other
          rw [hothers]

end Entries

namespace Json

theorem canonicalItems_iff {items : List Json} :
    CanonicalItems items ↔ ∀ item ∈ items, item.Canonical := by
  induction items with
  | nil => simp [CanonicalItems]
  | cons item rest ih => simp [CanonicalItems, ih]

theorem canonicalMembers_iff {members : List (String × Json)} :
    CanonicalMembers members ↔ ∀ member ∈ members, member.2.Canonical := by
  induction members with
  | nil => simp [CanonicalMembers]
  | cons member rest ih => simp [CanonicalMembers, ih]

theorem Canonical.item {items : List Json} (h : (Json.array items).Canonical) {item : Json}
    (hi : item ∈ items) : item.Canonical := by
  simp only [Canonical] at h
  exact canonicalItems_iff.1 h item hi

theorem Canonical.member {members : List (String × Json)} (h : (Json.object members).Canonical)
    {key : String} {value : Json} (hl : members.lookup key = some value) : value.Canonical := by
  simp only [Canonical] at h
  exact canonicalMembers_iff.1 h.2 _ (Entries.mem_of_lookup hl)

theorem Canonical.nodup_keys {members : List (String × Json)} (h : (Json.object members).Canonical) :
    (Entries.keys members).Nodup := by
  simp only [Canonical] at h
  exact h.1.nodup_keys

end Json

/-- A rewriting that leaves all visited values as they are leaves the whole value as it is. -/
theorem Rewrites.eq_of_canonical {schema : Schema} {r : Definition → Json → Json → Prop} {d : Definition}
    {value value' : Json} (hr : ∀ d value value', value.Canonical → r d value value' → value' = value)
    (h : Rewrites schema r d value value') (hc : value.Canonical) : value' = value := by
  induction h with
  | null => rfl
  | @struct d properties nullable members changed resolved keys declared others ih =>
      congr 1
      refine Entries.eq_of_lookup_eq hc.nodup_keys keys fun key => ?_
      by_cases hkey : key ∈ Entries.keys properties
      · obtain ⟨⟨name, part⟩, hpart, hname⟩ := List.mem_map.1 hkey
        obtain rfl : name = key := hname
        cases hl : members.lookup name with
        | none => exact Entries.lookup_eq_none_of_keys_eq keys hl
        | some value =>
            obtain ⟨value', hl'⟩ := Entries.exists_lookup_of_keys_eq keys hl
            rw [hl', ih name part value value' hpart hl hl' (hc.member hl)]
      · exact others key hkey
  | @list d element items changed resolved length parts ih =>
      congr 1
      refine List.ext_getElem length fun place hplace hplace' => ?_
      exact ih place _ _ (List.getElem?_eq_getElem _) (List.getElem?_eq_getElem _)
        (hc.item (List.getElem_mem _))
  | visited _ _ _ related => exact hr _ _ _ hc related
  | kept => rfl

/-- The text under a key of a document reference is one of its ids. -/
theorem Visit.exists_reference_of_lookup {fixed : Option String} {path : Path}
    {members : List (String × Json)} {resolution : Resolution} {key text : String} {mapping : IdMapping}
    (hk : resolution.forKey? key = some mapping) (hl : members.lookup key = some (.string text)) :
    ∃ reference ∈ Visit.references ⟨.documentRef fixed, path, .object members⟩,
      reference.value = text := by
  have hkey : (key, Kind.collection) ∈ referenceKeys ∨ (key, Kind.document) ∈ referenceKeys := by
    unfold Resolution.forKey? at hk
    split at hk
    · next hcollection => simp [referenceKeys, hcollection]
    · split at hk
      · next hdocument => simp [referenceKeys, hdocument]
      · cases hk
  have htext : Visit.text? ⟨.documentRef fixed, path, .object members⟩ key = some text :=
    Visit.text?_eq_some_iff.2 ⟨members, rfl, hl⟩
  obtain ⟨expected, hmem⟩ : ∃ expected, (key, expected) ∈ referenceKeys :=
    hkey.elim (fun h => ⟨_, h⟩) fun h => ⟨_, h⟩
  have hd : Visit.isDocumentRef ⟨.documentRef fixed, path, .object members⟩ = true := rfl
  refine ⟨⟨path ++ [.name key], expected, text⟩, ?_, rfl⟩
  rw [Visit.references, if_pos hd]
  exact List.mem_filterMap.2 ⟨(key, expected), hmem, by simp [htext]⟩

/-- A document reference in which no proto id stands is not changed. -/
theorem Resolution.resolveVisit_of_plain (resolution : Resolution) {visit : Visit}
    (hc : visit.value.Canonical) (h : ∀ reference ∈ visit.references, ∀ p : ProtoId,
      reference.value ≠ p.text) : resolution.resolveVisit visit = visit.value := by
  obtain ⟨d, path, value⟩ := visit
  cases d with
  | documentRef fixed =>
      cases value with
      | object members =>
          have hsame : members.map resolution.resolveMember = members := by
            refine Entries.eq_of_lookup_eq hc.nodup_keys (resolution.keys_map_resolveMember members)
              fun key => ?_
            rw [resolution.lookup_map_resolveMember]
            cases hl : members.lookup key with
            | none => rfl
            | some value =>
                cases hk : resolution.forKey? key with
                | none => simp [turned, hk]
                | some mapping =>
                    cases value with
                    | string text =>
                        obtain ⟨reference, hmem, rfl⟩ :=
                          Visit.exists_reference_of_lookup hk hl
                        have hproto : ProtoId.ofText? reference.value = none :=
                          Option.eq_none_iff_forall_ne_some.2 fun p hp =>
                            h reference hmem p (ProtoId.ofText?_eq_some_iff.1 hp)
                        simp [turned, hk, mapping.resolve_of_not_protoId hproto]
                    | _ => simp [turned]
          exact congrArg Json.object hsame
      | _ => rfl
  | _ => rfl

/-- Resolving leaves content alone in whose document references no proto id stands. -/
theorem Schema.resolveContent_of_plain {schema : Schema} {content : Json} {references : List IdReference}
    (hc : content.Canonical) (h : schema.contentReferences content = .ok references)
    (hplain : ∀ reference ∈ references, ∀ p : ProtoId, reference.value ≠ p.text)
    (resolution : Resolution) : schema.resolveContent resolution content = .ok content := by
  obtain ⟨found, hfound, rfl⟩ := map_eq_ok_iff.1 h
  obtain ⟨⟨content', _⟩, hchange⟩ := Schema.exists_changeContent_of_visitContent hfound
    (fun visit (_ : Unit) => (resolution.resolveVisit visit, ())) ()
  obtain ⟨root, found', hroot, hfound', -, hrewrites⟩ := rewrites_of_changeContent hchange
  cases hfound.symm.trans hfound'
  have hsame : content' = content := by
    refine hrewrites.eq_of_canonical ?_ hc
    rintro d value value' hvalue ⟨path, hmem⟩
    have hvisit := Visitor.mem_of_mem_trace hmem
    rw [Visitor.eq_of_mem_trace_of_stateless hmem]
    exact resolution.resolveVisit_of_plain hvalue fun reference hreference =>
      hplain reference (List.mem_flatMap.2 ⟨_, hvisit, hreference⟩)
  exact map_eq_ok_iff.2 ⟨_, hchange, hsame⟩

end ContentStore

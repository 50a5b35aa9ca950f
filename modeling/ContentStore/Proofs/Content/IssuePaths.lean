import ContentStore.Proofs.Content.Plain
import ContentStore.Proofs.Content.Positions
import Mathlib.Data.List.Sigma

/-!
# Where issues stand

Every fault of content stands at a place of its own: its path leads to a value of the content or, if a key
is missing, to an object without this key, and no path of an issue continues the path of another.
-/

namespace ContentStore

/-! ### Places in a value -/

namespace Json

def partAt? : Json → Path → Option Json
  | value, [] => some value
  | .object members, .name key :: path => (members.lookup key).bind (partAt? · path)
  | .array items, .index place :: path => items[place]?.bind (partAt? · path)
  | _, _ => none

@[simp] theorem partAt?_nil (value : Json) : value.partAt? [] = some value := by
  unfold partAt?
  rfl

end Json

/-- Texts that begin apart are apart. -/
theorem append_ne_append {s t : String} (place : Nat) (hs : place < s.toList.length)
    (ht : place < t.toList.length) (h : s.toList[place]? ≠ t.toList[place]?) (x y : String) :
    s ++ x ≠ t ++ y := by
  intro he
  have hchars := congrArg (fun text => text.toList[place]?) he
  simp only [String.toList_append] at hchars
  rw [List.getElem?_append_left hs, List.getElem?_append_left ht] at hchars
  exact h hchars

namespace Fault

/-- A fault stands at a value, but a missing key stands below an object that does not have it. -/
def StandsAt (content : Json) (path : Path) (fault : Fault) : Prop :=
  match fault with
  | .missingKey key => ∃ above members, path = above ++ [.name key] ∧
      content.partAt? above = some (.object members) ∧ members.lookup key = none
  | _ => ∃ value, content.partAt? path = some value

theorem standsAt_of_value {content value : Json} {path : Path} {fault : Fault}
    (hf : ∀ key, fault ≠ .missingKey key) (h : content.partAt? path = some value) :
    fault.StandsAt content path := by
  cases fault with
  | missingKey key => exact absurd rfl (hf key)
  | _ => exact ⟨value, h⟩

theorem StandsAt.under {content child : Json} {segment : Segment} {path : Path} {fault : Fault}
    (hchild : ∀ path, content.partAt? (segment :: path) = child.partAt? path)
    (h : fault.StandsAt child path) : fault.StandsAt content (segment :: path) := by
  cases fault with
  | missingKey key =>
      obtain ⟨above, members, rfl, hparent, hmissing⟩ := h
      exact ⟨segment :: above, members, rfl, (hchild above).trans hparent, hmissing⟩
  | _ =>
      obtain ⟨value, hvalue⟩ := h
      exact ⟨value, (hchild path).trans hvalue⟩

theorem message_missingKey (key : String) : (missingKey key).message =
    "Invalid key: Expected \"" ++ (key ++ "\" but received undefined") :=
  String.append_assoc

theorem message_unknownKey (key : String) : (unknownKey key).message =
    "Invalid key: Expected never but received \"" ++ (key ++ "\"") :=
  String.append_assoc

theorem message_wrongType (expected : String) (value : Json) : (wrongType expected value).message =
    "Invalid type: Expected " ++ (expected ++ (" but received " ++ received value)) := by
  rw [← String.append_assoc, ← String.append_assoc]
  rfl

theorem message_notAFile : notAFile.message =
    "Invalid file: neither a FileRef nor a ProtoFile" ++ "" :=
  String.append_empty.symm

/-- Among the faults of structure only a missing key is reported as one. -/
theorem eq_missingKey {fault : Fault} {key : String} (hk : fault.kind = .schema)
    (hm : fault.message = (missingKey key).message) : fault = .missingKey key := by
  rw [message_missingKey] at hm
  cases fault with
  | missingKey other =>
      rw [message_missingKey, String.append_right_inj, String.append_left_inj] at hm
      rw [hm]
  | wrongType expected value =>
      rw [message_wrongType] at hm
      exact absurd hm (append_ne_append 8 (by decide) (by decide) (by decide) _ _)
  | unknownKey other =>
      rw [message_unknownKey] at hm
      exact absurd hm (append_ne_append 22 (by decide) (by decide) (by decide) _ _)
  | notAFile =>
      rw [message_notAFile] at hm
      exact absurd hm (append_ne_append 8 (by decide) (by decide) (by decide) _ _)
  | _ => cases hk

end Fault

namespace Issue

/-- Neither of two paths continues the other. -/
def Apart (a b : Issue) : Prop :=
  ¬ a.path <+: b.path ∧ ¬ b.path <+: a.path

theorem Apart.under {a b : Issue} (h : a.Apart b) (segment : Segment) :
    (a.under segment).Apart (b.under segment) := by
  unfold Apart at h ⊢
  simpa [Issue.under, List.cons_prefix_cons] using h

theorem apart_of_ne {a b : Issue} {segment other : Segment} {path rest : Path} (hne : segment ≠ other)
    (ha : a.path = segment :: path) (hb : b.path = other :: rest) : a.Apart b := by
  unfold Apart
  rw [ha, hb, List.cons_prefix_cons, List.cons_prefix_cons]
  exact ⟨fun h => hne h.1, fun h => hne h.1.symm⟩

/-- An issue says that a key was expected and is not there. -/
def Misses (issue : Issue) (key : String) : Prop :=
  issue.kind = .schema ∧ issue.message = (Fault.missingKey key).message

end Issue

/-- Issues of a value that stand at their places, none at or below the place of another. -/
structure WellPlaced (value : Json) (issues : List Issue) : Prop where
  places : ∀ issue ∈ issues, ∃ fault path, issue = Fault.issue fault path ∧ fault.StandsAt value path
  apart : issues.Pairwise Issue.Apart

namespace WellPlaced

variable {value child : Json} {issues : List Issue}

theorem nil : WellPlaced value [] :=
  ⟨fun _ h => absurd h List.not_mem_nil, .nil⟩

theorem root {fault : Fault} (hf : ∀ key, fault ≠ .missingKey key) :
    WellPlaced value [fault.issue []] := by
  refine ⟨fun issue hissue => ?_, List.pairwise_singleton _ _⟩
  rw [List.mem_singleton.1 hissue]
  exact ⟨fault, [], rfl, Fault.standsAt_of_value hf (Json.partAt?_nil value)⟩

theorem under {segment : Segment} (h : WellPlaced child issues)
    (hchild : ∀ path, value.partAt? (segment :: path) = child.partAt? path) :
    WellPlaced value (issues.map (Issue.under segment)) := by
  refine ⟨List.forall_mem_map.2 fun issue hissue => ?_, ?_⟩
  · obtain ⟨fault, path, rfl, hstands⟩ := h.places issue hissue
    exact ⟨fault, segment :: path, rfl, hstands.under hchild⟩
  · exact List.pairwise_map.2 (h.apart.imp fun hapart => hapart.under segment)

/-- Issues that begin with different steps can be put together. -/
theorem append {others : List Issue} (h : WellPlaced value issues) (ho : WellPlaced value others)
    (hsteps : ∀ issue ∈ issues, ∀ other ∈ others, ∃ segment path segment' path',
      segment ≠ segment' ∧ issue.path = segment :: path ∧ other.path = segment' :: path') :
    WellPlaced value (issues ++ others) := by
  refine ⟨fun issue hissue => ?_, List.pairwise_append.2 ⟨h.apart, ho.apart, ?_⟩⟩
  · exact (List.mem_append.1 hissue).elim (h.places issue) (ho.places issue)
  · intro issue hissue other hother
    obtain ⟨segment, path, segment', path', hne, hpath, hpath'⟩ := hsteps issue hissue other hother
    exact Issue.apart_of_ne hne hpath hpath'

end WellPlaced

namespace Validator

variable {v : Validator} {schema : Schema} {d target : Definition} {value : Json}

/-! ### The issues of an object's keys -/

theorem partAt?_member {members : List (String × Json)} {key : String}
    (hl : members.lookup key = some value) (path : Path) :
    (Json.object members).partAt? (.name key :: path) = value.partAt? path := by
  simp [Json.partAt?, hl]

theorem partAt?_item {items : List Json} {place : Nat} (hl : items[place]? = some value)
    (path : Path) : (Json.array items).partAt? (.index place :: path) = value.partAt? path := by
  simp [Json.partAt?, hl]

theorem path_of_mem_unknownKeyIssues {declared : List String} {members : List (String × Json)}
    {issue : Issue} (h : issue ∈ unknownKeyIssues declared members) :
    ∃ key, key ∈ Entries.keys members ∧ key ∉ declared ∧
      issue = (Fault.unknownKey key).issue [.name key] := by
  obtain ⟨member, hmember, rfl⟩ := List.mem_map.1 h
  obtain ⟨hmem, hkey⟩ := List.mem_filter.1 hmember
  exact ⟨member.1, List.mem_map_of_mem hmem, by simpa using hkey, rfl⟩

theorem wellPlaced_missingKey {members : List (String × Json)} {key : String}
    (hl : members.lookup key = none) :
    WellPlaced (.object members) [(Fault.missingKey key).issue [.name key]] := by
  refine ⟨fun issue hissue => ?_, List.pairwise_singleton _ _⟩
  rw [List.mem_singleton.1 hissue]
  exact ⟨.missingKey key, [.name key], rfl, [], members, rfl, Json.partAt?_nil _, hl⟩

theorem wellPlaced_unknownKeyIssues {members : List (String × Json)}
    (hk : (Entries.keys members).Nodup) (declared : List String) :
    WellPlaced (.object members) (unknownKeyIssues declared members) := by
  constructor
  · intro issue hissue
    obtain ⟨key, hkey, -, rfl⟩ := path_of_mem_unknownKeyIssues hissue
    obtain ⟨found, hfound⟩ := Option.isSome_iff_exists.1 (Entries.lookup_isSome_iff.2 hkey)
    refine ⟨.unknownKey key, [.name key], rfl, found, ?_⟩
    rw [partAt?_member hfound, Json.partAt?_nil]
  · have hkeys : (members.map Prod.fst).Nodup := hk
    have hdistinct : members.Pairwise fun a b => a.1 ≠ b.1 := List.pairwise_map.1 hkeys
    refine List.pairwise_map.2 ((hdistinct.filter _).imp fun hne => ?_)
    exact Issue.apart_of_ne (fun he => hne (Segment.name.inj he)) rfl rfl

theorem path_of_mem_textKeyIssues {members : List (String × Json)} {key : String} {issue : Issue}
    (h : issue ∈ textKeyIssues members key) : issue.path = [.name key] := by
  unfold textKeyIssues at h
  split at h
  · rw [List.mem_singleton.1 h]
    rfl
  · cases h
  · rw [List.mem_singleton.1 h]
    rfl

/-- A fault of the value under a key. -/
theorem wellPlaced_member {members : List (String × Json)} {key : String} {fault : Fault}
    (hl : members.lookup key = some value) (hf : ∀ key, fault ≠ .missingKey key) :
    WellPlaced (.object members) [fault.issue [.name key]] :=
  (show WellPlaced value _ from WellPlaced.root hf).under (partAt?_member hl)

theorem wellPlaced_textKeyIssues (members : List (String × Json)) (key : String) :
    WellPlaced (.object members) (textKeyIssues members key) := by
  unfold textKeyIssues
  split
  · next hl => exact wellPlaced_missingKey hl
  · exact .nil
  · next found _ hl => exact wellPlaced_member hl (by simp)

theorem wellPlaced_otherCollectionIssues (fixed : Option String) (members : List (String × Json)) :
    WellPlaced (.object members) (otherCollectionIssues fixed members) := by
  unfold otherCollectionIssues
  split
  · next hl =>
      split
      · exact .nil
      · exact wellPlaced_member hl (by simp)
  · exact .nil

theorem path_of_mem_otherCollectionIssues {fixed : Option String} {members : List (String × Json)}
    {issue : Issue} (h : issue ∈ otherCollectionIssues fixed members) :
    issue.path = [.name "collectionId"] := by
  unfold otherCollectionIssues at h
  split at h
  · split at h
    · cases h
    · rw [List.mem_singleton.1 h]
      rfl
  · cases h

/-- Only a collection that is a text can be another than the fixed one. -/
theorem otherCollectionIssues_eq_nil_of_textKeyIssues {fixed : Option String}
    {members : List (String × Json)} (h : textKeyIssues members "collectionId" ≠ []) :
    otherCollectionIssues fixed members = [] := by
  unfold otherCollectionIssues
  split
  · next hl =>
      unfold textKeyIssues at h
      rw [hl] at h
      exact absurd rfl h
  · rfl

theorem wellPlaced_documentRefIssues (fixed : Option String)
    (hk : ∀ members, value = .object members → (Entries.keys members).Nodup) :
    WellPlaced value (documentRefIssues fixed value) := by
  cases value with
  | object members =>
      have hcollection := wellPlaced_textKeyIssues members "collectionId"
      have hdocument := wellPlaced_textKeyIssues members "documentId"
      have hunknown := wellPlaced_unknownKeyIssues (hk members rfl) documentKeys
      have hother := wellPlaced_otherCollectionIssues fixed members
      have hknown : ∀ key ∈ documentKeys, ∀ issue : Issue, issue.path = [.name key] →
          ∀ other ∈ unknownKeyIssues documentKeys members, ∃ segment path segment' path',
            segment ≠ segment' ∧ issue.path = segment :: path ∧ other.path = segment' :: path' := by
        intro key hkey issue hpath other hmem
        obtain ⟨name, -, hname, rfl⟩ := path_of_mem_unknownKeyIssues hmem
        refine ⟨.name key, [], .name name, [], fun he => hname ?_, hpath, rfl⟩
        cases he
        exact hkey
      simp only [documentRefIssues, documentKeys, List.flatMap_cons, List.flatMap_nil, List.append_nil]
      by_cases hc : textKeyIssues members "collectionId" = []
      · rw [hc, List.nil_append, List.append_assoc]
        refine hdocument.append (hunknown.append hother ?_) ?_
        · intro issue hissue other hmem
          obtain ⟨segment, path, segment', path', hne, hpath, hpath'⟩ := hknown "collectionId" (by decide)
            other (path_of_mem_otherCollectionIssues hmem) issue hissue
          exact ⟨segment', path', segment, path, hne.symm, hpath', hpath⟩
        · intro issue hissue other hmem
          have hpath := path_of_mem_textKeyIssues hissue
          rcases List.mem_append.1 hmem with hmem | hmem
          · exact hknown "documentId" (by decide) issue hpath other hmem
          · exact ⟨.name "documentId", [], .name "collectionId", [], by decide, hpath,
              path_of_mem_otherCollectionIssues hmem⟩
      · rw [otherCollectionIssues_eq_nil_of_textKeyIssues hc, List.append_nil, List.append_assoc]
        refine hcollection.append (hdocument.append hunknown ?_) ?_
        · intro issue hissue
          exact hknown "documentId" (by decide) issue (path_of_mem_textKeyIssues hissue)
        · intro issue hissue other hmem
          have hpath := path_of_mem_textKeyIssues hissue
          rcases List.mem_append.1 hmem with hmem | hmem
          · exact ⟨.name "collectionId", [], .name "documentId", [], by decide, hpath,
              path_of_mem_textKeyIssues hmem⟩
          · exact hknown "collectionId" (by decide) issue hpath other hmem
  | _ => exact .root (by simp)

/-! ### The issues of a value that is not looked into -/

theorem wellPlaced_unlessHolds (condition : Bool) {fault : Fault} (hf : ∀ key, fault ≠ .missingKey key) :
    WellPlaced value (unlessHolds condition fault) := by
  cases condition with
  | true => exact .nil
  | false => exact .root hf

theorem wellPlaced_formatIssues (v : Validator) (target : FormatTarget) (format : Option String) :
    WellPlaced value (v.formatIssues target format value) := by
  unfold formatIssues
  split
  · exact .root (by simp)
  · exact .nil

theorem wellPlaced_fileIssues (accept : Option (SortedMap String (List String))) :
    WellPlaced value (fileIssues accept value) := by
  unfold fileIssues
  split
  · exact .root (by simp)
  · exact .nil
  · exact wellPlaced_unlessHolds _ (by simp)

theorem wellPlaced_objectIssues (v : Validator) (format : Option String) :
    WellPlaced value (v.objectIssues format value) := by
  unfold objectIssues
  split
  · split
    · exact wellPlaced_formatIssues v .jsonObject format
    · exact .root (by simp)
  · exact .root (by simp)
  · exact .root (by simp)

/-- The issues of a value that is not looked into stand at the value, or at the keys of a reference to a
document. -/
theorem wellPlaced_leafIssues (v : Validator) (d : Definition)
    (hk : ∀ members, value = .object members → (Entries.keys members).Nodup) :
    WellPlaced value (v.leafIssues d value) := by
  unfold leafIssues
  split
  · split
    · exact wellPlaced_formatIssues v .string _
    · exact .root (by simp)
  · split
    · exact wellPlaced_formatIssues v .number _
    · exact .root (by simp)
  · split
    · exact .nil
    · exact .root (by simp)
  · exact wellPlaced_unlessHolds _ (by simp)
  · exact wellPlaced_unlessHolds _ (by simp)
  · split
    · exact wellPlaced_unlessHolds _ (by simp)
    · exact .root (by simp)
  · exact wellPlaced_unlessHolds _ (by simp)
  · exact .root (by simp)
  · exact .root (by simp)
  · exact wellPlaced_documentRefIssues _ hk
  · exact wellPlaced_fileIssues _
  · exact wellPlaced_objectIssues v _
  · exact .nil

/-! ### The issues of a whole value -/

/-- The issues of one property of a struct begin with its key. -/
theorem wellPlaced_propertyIssues {members : List (String × Json)} {nullable : SortedSet String}
    {property : String × Definition} {issues : List Issue}
    (h : v.propertyIssues schema members nullable property = .ok issues)
    (hpart : ∀ part found, members.lookup property.1 = some part →
      v.findings schema part property.2 = .ok found → WellPlaced part found) :
    WellPlaced (.object members) issues ∧
      ∀ issue ∈ issues, ∃ path, issue.path = .name property.1 :: path := by
  unfold propertyIssues at h
  split at h
  · next hl =>
      cases h
      refine ⟨wellPlaced_missingKey hl, fun issue hissue => ?_⟩
      rw [List.mem_singleton.1 hissue]
      exact ⟨[], rfl⟩
  · next part hl =>
      split at h
      · cases h
        exact ⟨.nil, fun issue hissue => absurd hissue List.not_mem_nil⟩
      · obtain ⟨found, hfound, rfl⟩ := map_eq_ok_iff.1 h
        refine ⟨(hpart part found hl hfound).under (partAt?_member hl), ?_⟩
        exact List.forall_mem_map.2 fun issue _ => ⟨issue.path, rfl⟩

/-- Issues gathered from parts stand at their places if those of each part do and begin with a step of
their own. -/
theorem wellPlaced_gather {β : Type} {parts : List β} {f : β → Findings} {issues : List Issue}
    (hg : gather (parts.map f) = .ok issues) (step : β → Segment) (hn : (parts.map step).Nodup)
    (hparts : ∀ part ∈ parts, ∀ here, f part = .ok here →
      WellPlaced value here ∧ ∀ issue ∈ here, ∃ path, issue.path = step part :: path) :
    WellPlaced value issues := by
  constructor
  · intro issue hissue
    obtain ⟨part, hpart, here, hhere, hmem⟩ := (mem_gather_iff hg).1 hissue
    exact (hparts part hpart here hhere).1.places issue hmem
  · refine gather_pairwise hg (fun part hpart here hhere => (hparts part hpart here hhere).1.apart) ?_
    refine (List.pairwise_map.1 hn).imp_of_mem ?_
    intro part other hpart hother hne here there hhere hthere issue hissue issue' hissue'
    obtain ⟨path, hpath⟩ := (hparts part hpart here hhere).2 issue hissue
    obtain ⟨path', hpath'⟩ := (hparts other hother there hthere).2 issue' hissue'
    exact Issue.apart_of_ne hne hpath hpath'

theorem wellPlaced_findings (hs : schema.checkStructure = .ok ()) (hd : schema.Sound d)
    (hk : d.DistinctKeys) (hc : value.Canonical) {issues : List Issue}
    (h : v.findings schema value d = .ok issues) : WellPlaced value issues := by
  refine Schema.soundInduction hs (motive := fun d value => d.DistinctKeys → value.Canonical →
    ∀ issues, v.findings schema value d = .ok issues → WellPlaced value issues) ?_ ?_ ?_ hd value hk hc
      issues h
  · intro d target value _ hr ho _ hc issues h
    rw [findings_of_not_opens hr ho] at h
    cases h
    refine wellPlaced_leafIssues v target fun members he => ?_
    subst he
    exact hc.nodup_keys
  · intro d element items hr ih hk hc issues h
    rw [findings_list hr] at h
    have hlist : (Definition.list element).DistinctKeys := Schema.distinctKeys_of_resolve hk hr
    have helement : element.DistinctKeys := hlist
    have hplaces : (items.zipIdx.map fun item => Segment.index item.2).Nodup := by
      have hsegments := (List.nodup_zipIdx_map_snd items).map (f := Segment.index) fun _ _ he =>
        Segment.index.inj he
      rwa [List.map_map] at hsegments
    refine wellPlaced_gather h (fun item => .index item.2) hplaces fun item hitem here hhere => ?_
    obtain ⟨found, hfound, rfl⟩ := map_eq_ok_iff.1 hhere
    have hmem := List.fst_mem_of_mem_zipIdx hitem
    have hget := List.mk_mem_zipIdx_iff_getElem?.1 hitem
    refine ⟨(ih item.1 hmem helement (hc.item hmem) found hfound).under (partAt?_item hget), ?_⟩
    exact List.forall_mem_map.2 fun issue _ => ⟨issue.path, rfl⟩
  · intro d properties nullable members hr ih hk hc issues h
    rw [findings_struct hr] at h
    obtain ⟨found, hfound, rfl⟩ := map_eq_ok_iff.1 h
    obtain ⟨hkeys, hparts⟩ := Schema.distinctKeys_of_resolve hk hr
    have hsteps : (properties.map fun property => Segment.name property.1).Nodup := by
      have hnames := List.Nodup.map (f := Segment.name) (fun _ _ he => Segment.name.inj he) hkeys
      rwa [Entries.keys, List.map_map] at hnames
    have hproperties : ∀ property ∈ properties, ∀ here,
        v.propertyIssues schema members nullable property = .ok here →
          WellPlaced (.object members) here ∧
            ∀ issue ∈ here, ∃ path, issue.path = .name property.1 :: path :=
      fun property hp here hhere => wellPlaced_propertyIssues hhere fun part found hl =>
        ih property.1 property.2 part hp hl (Definition.distinctPropertyKeys_iff.1 hparts property hp)
          (hc.member hl) found
    refine (wellPlaced_gather hfound _ hsteps hproperties).append
      (wellPlaced_unknownKeyIssues hc.nodup_keys _) fun issue hissue other hother => ?_
    obtain ⟨property, hp, here, hhere, hmem⟩ := (mem_gather_iff hfound).1 hissue
    obtain ⟨path, hpath⟩ := (hproperties property hp here hhere).2 issue hmem
    obtain ⟨key, -, hkey, rfl⟩ := path_of_mem_unknownKeyIssues hother
    refine ⟨.name property.1, path, .name key, [], fun he => hkey ?_, hpath, rfl⟩
    cases he
    exact List.mem_map_of_mem hp

/-- In the issues of content no path continues another. An issue that misses a key ends in a key that the
object above it does not have, and every other issue leads to a value of the content. -/
theorem validate_paths (v : Validator) (hs : schema.checkStructure = .ok ()) {content : Json}
    (hc : content.Canonical) :
    ∃ issues, v.validate schema content = .ok issues ∧
      (issues.Pairwise fun issue other => ¬ issue.path <+: other.path ∧ ¬ other.path <+: issue.path) ∧
      ∀ issue ∈ issues,
        (∀ key, issue.Misses key → ∃ above members, issue.path = above ++ [.name key] ∧
          content.partAt? above = some (.object members) ∧ members.lookup key = none) ∧
        ((∀ key, ¬ issue.Misses key) → ∃ value, content.partAt? issue.path = some value) := by
  obtain ⟨⟨root, hroot⟩, -⟩ := Schema.checkStructure_eq_ok_iff.1 hs
  have hd := Schema.sound_of_root hs hroot
  obtain ⟨issues, hissues⟩ := v.exists_findings hs hd content
  have hplaced := wellPlaced_findings hs hd (Schema.distinctKeys_of_root hroot) hc hissues
  refine ⟨issues, ?_, hplaced.apart, fun issue hissue => ?_⟩
  · rw [validate_of_root hs hroot, hissues]
  · obtain ⟨fault, path, rfl, hstands⟩ := hplaced.places issue hissue
    constructor
    · intro key hmisses
      cases Fault.eq_missingKey hmisses.1 hmisses.2
      exact hstands
    · intro hother
      cases fault with
      | missingKey key => exact absurd ⟨rfl, rfl⟩ (hother key)
      | _ => exact hstands

def titledAlbum : Json :=
  .object [("parts", .array [.null]), ("title", .string "Blue")]

/-- Its faults stand at four places: two keys that it does not have, the part and the title. -/
theorem validate_paths_titledAlbum :
    Schema.albums.checkStructure = .ok () ∧ titledAlbum.Canonical ∧
      ∃ issues, ({ formats := .builtins } : Validator).validate Schema.albums titledAlbum = .ok issues ∧
        issues.map Issue.path =
          [[.name "author"], [.name "cover"], [.name "parts", .index 0], [.name "title"]] ∧
        (issues.Pairwise fun issue other => ¬ issue.path <+: other.path ∧ ¬ other.path <+: issue.path) ∧
        ∀ issue ∈ issues,
          (∀ key, issue.Misses key → ∃ above members, issue.path = above ++ [.name key] ∧
            titledAlbum.partAt? above = some (.object members) ∧ members.lookup key = none) ∧
          ((∀ key, ¬ issue.Misses key) → ∃ value, titledAlbum.partAt? issue.path = some value) := by
  have hs : Schema.albums.checkStructure = .ok () := by
    decide +kernel
  have hc : titledAlbum.Canonical := by
    simp only [titledAlbum, Json.Canonical, Json.CanonicalMembers, Json.CanonicalItems, and_true]
    decide +kernel
  have hpaths : (({ formats := .builtins } : Validator).validate Schema.albums titledAlbum).map
      (List.map Issue.path) =
        .ok [[.name "author"], [.name "cover"], [.name "parts", .index 0], [.name "title"]] := by
    decide +kernel
  obtain ⟨issues, hissues, hrest⟩ := validate_paths { formats := .builtins } hs hc
  rw [hissues] at hpaths
  exact ⟨hs, hc, issues, hissues, Except.ok.inj hpaths, hrest⟩

end Validator

end ContentStore

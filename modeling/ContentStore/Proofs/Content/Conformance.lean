import ContentStore.Proofs.Content.Nesting
import ContentStore.Proofs.Content.Validity
import ContentStore.Proofs.Schema.Structure

/-!
# Content that conforms to a schema

Conformance is a relation between definitions and values, with one rule for each data type. It follows a
reference one declared name at a time and looks a recursive schema up as often as the value is deep. The
check decides it.
-/

namespace ContentStore

/-! ### What a value has to be -/

/-- The value of an enumeration member is this value. Numbers are compared as doubles. -/
inductive EnumValue.Equals : EnumValue → Json → Prop
  | text {s : String} : Equals (.string s) (.string s)
  | number {x y : Double} {n : Json.Number} (nearest : n.toDouble? = some y)
      (same : x.sameValue y = true) : Equals (.number x) (.number n)

/-- The registered format of this name and target, if there is one, admits the value. -/
def FormatRegistry.Admits (registry : FormatRegistry) (target : FormatTarget) (format : Option String)
    (value : Json) : Prop :=
  ∀ id ∈ format, ∀ registered ∈ registry.get? target id, registered.reject value = none

/-- A pattern that the media type meets lists the extension of the name. -/
def AcceptsFile (accept : SortedMap String (List String)) (name mimeType : String) : Prop :=
  ∃ ext pattern extensions, fileExtension? name = some ext ∧
    (pattern, extensions) ∈ accept.entries ∧ mimeMatches pattern mimeType = true ∧
    ∃ allowed ∈ extensions, Text.sameLetters allowed ext = true

/-- Content conforms to a definition of the schema, one rule for each data type. -/
inductive Validator.Conforms (v : Validator) (schema : Schema) : Definition → Json → Prop
  | string {format : Option String} {s : String}
      (admitted : v.formats.Admits .string format (.string s)) :
      Conforms v schema (.string format) (.string s)
  | number {format : Option String} {n : Json.Number}
      (admitted : v.formats.Admits .number format (.number n)) :
      Conforms v schema (.number format) (.number n)
  | boolean {b : Bool} : Conforms v schema .boolean (.bool b)
  | stringLiteral {s : String} {value : Json} (equal : EnumValue.Equals (.string s) value) :
      Conforms v schema (.stringLiteral s) value
  | numberLiteral {x : Double} {value : Json} (equal : EnumValue.Equals (.number x) value) :
      Conforms v schema (.numberLiteral x) value
  | booleanLiteral {b : Bool} : Conforms v schema (.booleanLiteral b) (.bool b)
  | enum {members : OrderedMap EnumMember} {member : EnumMember} {value : Json}
      (declared : member ∈ members.values) (equal : member.value.Equals value) :
      Conforms v schema (.enum members) value
  | struct {properties : List (String × Definition)} {nullable : SortedSet String}
      {members : List (String × Json)}
      (keys : Entries.KeysAre (Entries.keys properties) members)
      (values : ∀ key d value, (key, d) ∈ properties → members.lookup key = some value →
        ¬ (value = .null ∧ key ∈ nullable.toList) → Conforms v schema d value) :
      Conforms v schema (.struct properties nullable) (.object members)
  | list {element : Definition} {items : List Json}
      (each : ∀ item ∈ items, Conforms v schema element item) :
      Conforms v schema (.list element) (.array items)
  | documentRef {fixed : Option String} {members : List (String × Json)}
      {collectionId documentId : String}
      (keys : Entries.KeysAre ["collectionId", "documentId"] members)
      (collection : members.lookup "collectionId" = some (.string collectionId))
      (document : members.lookup "documentId" = some (.string documentId))
      (same : ∀ id ∈ fixed, collectionId = id) :
      Conforms v schema (.documentRef fixed) (.object members)
  | file {accept : Option (SortedMap String (List String))} {name mimeType : String} {value : Json}
      (holds : value.HoldsFile name mimeType)
      (accepted : ∀ patterns ∈ accept, AcceptsFile patterns name mimeType) :
      Conforms v schema (.file accept) value
  | jsonObject {format : Option String} {members : List (String × Json)}
      (fits : (Json.object members).depth ≤ v.maxObjectDepth)
      (admitted : v.formats.Admits .jsonObject format (.object members)) :
      Conforms v schema (.jsonObject format) (.object members)
  | ref {name : String} {target : Definition} {value : Json}
      (declared : schema.types.get? name = some target) (conforms : Conforms v schema target value) :
      Conforms v schema (.ref name) value

/-! ### Values without issues -/

theorem EnumValue.equals_iff {expected : EnumValue} {value : Json} :
    Validator.isMember value expected = true ↔ expected.Equals value := by
  constructor
  · intro h
    cases expected with
    | string s =>
        cases value with
        | string actual =>
            cases eq_of_beq h
            exact .text
        | _ => cases h
    | number x =>
        cases value with
        | number n =>
            obtain ⟨y, hy, hsame⟩ := (Option.any_eq_true _ _).1 h
            exact .number hy hsame
        | _ => cases h
  · intro h
    cases h with
    | text => simp [Validator.isMember]
    | number nearest same => simp [Validator.isMember, nearest, same]

theorem FormatRegistry.admits_iff {v : Validator} {target : FormatTarget} {format : Option String}
    {value : Json} : v.formatIssues target format value = [] ↔ v.formats.Admits target format value := by
  unfold Validator.formatIssues FormatRegistry.Admits FormatRegistry.reject
  cases format with
  | none => simp
  | some id => cases hg : v.formats.get? target id with
    | none => simp [hg]
    | some registered => cases hr : registered.reject value <;> simp [hg, hr]

theorem accepts_iff {accept : SortedMap String (List String)} {name mimeType : String} :
    accepts accept name mimeType = true ↔ AcceptsFile accept name mimeType := by
  unfold accepts AcceptsFile
  cases fileExtension? name with
  | none => simp
  | some ext => simp

namespace Validator

variable {v : Validator} {schema : Schema} {d target : Definition} {value : Json}

theorem textKeyIssues_eq_nil {members : List (String × Json)} {key : String} :
    textKeyIssues members key = [] ↔ ∃ text, members.lookup key = some (.string text) := by
  unfold textKeyIssues
  cases members.lookup key with
  | none => simp
  | some found => cases found <;> simp

theorem otherCollectionIssues_eq_nil {fixed : Option String} {members : List (String × Json)}
    {actual : String} (h : members.lookup "collectionId" = some (.string actual)) :
    otherCollectionIssues fixed members = [] ↔ ∀ id ∈ fixed, actual = id := by
  unfold otherCollectionIssues
  cases fixed with
  | none => simp
  | some id => simp [h, eq_comm]

theorem documentRefIssues_eq_nil {fixed : Option String} :
    documentRefIssues fixed value = [] ↔ v.Conforms schema (.documentRef fixed) value := by
  constructor
  · intro h
    cases value with
    | object members =>
        simp only [documentRefIssues, documentKeys, List.flatMap_cons, List.flatMap_nil,
          List.append_nil, List.append_eq_nil_iff, textKeyIssues_eq_nil] at h
        obtain ⟨⟨⟨⟨collectionId, hc⟩, documentId, hdoc⟩, hunknown⟩, hother⟩ := h
        have keys := Entries.keysAre_iff.2 ⟨unknownKeyIssues_eq_nil.1 hunknown, by simp [hc, hdoc]⟩
        exact .documentRef keys hc hdoc ((otherCollectionIssues_eq_nil hc).1 hother)
    | _ => cases h
  · intro h
    cases h with
    | documentRef keys collection document same =>
        have hunknown := unknownKeyIssues_eq_nil.2 (Entries.keysAre_iff.1 keys).1
        have hother := (otherCollectionIssues_eq_nil collection).2 same
        have htexts := textKeyIssues_eq_nil.2 ⟨_, collection⟩
        have htexts' := textKeyIssues_eq_nil.2 ⟨_, document⟩
        simp only [documentRefIssues, documentKeys, List.flatMap_cons, List.flatMap_nil, htexts,
          htexts', hother, List.append_nil]
        exact hunknown

theorem fileIssues_eq_nil {accept : Option (SortedMap String (List String))} :
    fileIssues accept value = [] ↔ v.Conforms schema (.file accept) value := by
  have hfile : fileIssues accept value = [] ↔ ∃ file, FileValue.ofJson? value = some file ∧
      ∀ patterns ∈ accept, AcceptsFile patterns file.name file.mimeType := by
    unfold fileIssues
    cases FileValue.ofJson? value with
    | none => simp
    | some file =>
        cases accept with
        | none => simp
        | some patterns => simp [unlessHolds, ← accepts_iff]
  rw [hfile]
  constructor
  · intro h
    obtain ⟨file, hvalue, haccepted⟩ := h
    exact .file (FileValue.ofJson?_iff.1 ⟨file, hvalue, rfl, rfl⟩) haccepted
  · intro h
    cases h with
    | file holds accepted =>
        obtain ⟨file, hvalue, rfl, rfl⟩ := FileValue.ofJson?_iff.2 holds
        exact ⟨file, hvalue, accepted⟩

theorem objectIssues_eq_nil {format : Option String} :
    v.objectIssues format value = [] ↔ v.Conforms schema (.jsonObject format) value := by
  constructor
  · intro h
    cases value with
    | object members =>
        rw [objectIssues] at h
        by_cases hfits : Json.fitsDepth v.maxObjectDepth (.object members) = true
        · rw [if_pos hfits] at h
          exact .jsonObject (Json.fitsDepth_iff.1 hfits) (FormatRegistry.admits_iff.1 h)
        · rw [if_neg hfits] at h
          cases h
    | _ => cases h
  · intro h
    cases h with
    | jsonObject fits admitted =>
        rw [objectIssues, if_pos (Json.fitsDepth_iff.2 fits)]
        exact FormatRegistry.admits_iff.2 admitted

theorem unlessHolds_eq_nil {condition : Bool} {fault : Fault} :
    unlessHolds condition fault = [] ↔ condition = true := by
  cases condition <;> simp [unlessHolds]

/-- A value that is not looked into has no issue exactly where it conforms. -/
theorem leafIssues_eq_nil (hr : ∀ name, target ≠ .ref name) (ho : target.opens value = false) :
    v.leafIssues target value = [] ↔ v.Conforms schema target value := by
  cases target with
  | string format =>
      constructor
      · intro h
        cases value with
        | string s => exact .string (FormatRegistry.admits_iff.1 h)
        | _ => cases h
      · intro h
        cases h with
        | string admitted => exact FormatRegistry.admits_iff.2 admitted
  | number format =>
      constructor
      · intro h
        cases value with
        | number n => exact .number (FormatRegistry.admits_iff.1 h)
        | _ => cases h
      · intro h
        cases h with
        | number admitted => exact FormatRegistry.admits_iff.2 admitted
  | boolean =>
      constructor
      · intro h
        cases value with
        | bool b => exact .boolean
        | _ => cases h
      · intro h
        cases h
        rfl
  | stringLiteral s =>
      rw [leafIssues, unlessHolds_eq_nil, EnumValue.equals_iff]
      constructor
      · exact .stringLiteral
      · intro h
        cases h with
        | stringLiteral equal => exact equal
  | numberLiteral x =>
      rw [leafIssues, unlessHolds_eq_nil, EnumValue.equals_iff]
      constructor
      · exact .numberLiteral
      · intro h
        cases h with
        | numberLiteral equal => exact equal
  | booleanLiteral b =>
      constructor
      · intro h
        cases value with
        | bool actual =>
            have he : b = actual := eq_of_beq (unlessHolds_eq_nil.1 h)
            exact he ▸ .booleanLiteral
        | _ => cases h
      · intro h
        cases h
        simp [leafIssues, unlessHolds]
  | enum members =>
      simp only [leafIssues, unlessHolds_eq_nil, List.any_eq_true, EnumValue.equals_iff]
      constructor
      · intro h
        obtain ⟨member, declared, equal⟩ := h
        exact .enum declared equal
      · intro h
        cases h with
        | enum declared equal => exact ⟨_, declared, equal⟩
  | struct properties nullable =>
      constructor
      · intro h
        cases h
      · intro h
        cases h
        cases ho
  | list element =>
      constructor
      · intro h
        cases h
      · intro h
        cases h
        cases ho
  | documentRef fixed => exact documentRefIssues_eq_nil
  | file accept => exact fileIssues_eq_nil
  | jsonObject format => exact objectIssues_eq_nil
  | ref name => exact absurd rfl (hr name)

theorem conforms_list_iff {element : Definition} {items : List Json} :
    v.Conforms schema (.list element) (.array items) ↔ ∀ item ∈ items, v.Conforms schema element item := by
  constructor
  · intro h
    cases h with
    | list each => exact each
  · exact .list

/-- The rule for structs, with what is declared first. -/
theorem conforms_struct_iff {properties : List (String × Definition)} {nullable : SortedSet String}
    {members : List (String × Json)} :
    v.Conforms schema (.struct properties nullable) (.object members) ↔
      (∀ key part, (key, part) ∈ properties → ∃ value, members.lookup key = some value ∧
        ((value.isNull = true ∧ nullable.contains key = true) ∨ v.Conforms schema part value)) ∧
      ∀ key ∈ Entries.keys members, key ∈ Entries.keys properties := by
  have hnull : ∀ key (value : Json), (value.isNull = true ∧ nullable.contains key = true) ↔
      (value = .null ∧ key ∈ nullable.toList) := by
    intro key value
    rw [Json.isNull_iff]
    exact and_congr_right fun _ => Entries.lookup_isSome_iff
  simp only [hnull]
  constructor
  · intro h
    cases h with
    | struct keys values =>
        obtain ⟨hunknown, hpresent⟩ := Entries.keysAre_iff.1 keys
        refine ⟨fun key part hp => ?_, hunknown⟩
        obtain ⟨value, hl⟩ := hpresent key (List.mem_map.2 ⟨(key, part), hp, rfl⟩)
        refine ⟨value, hl, ?_⟩
        by_cases hskip : value = .null ∧ key ∈ nullable.toList
        · exact .inl hskip
        · exact .inr (values key part value hp hl hskip)
  · intro h
    obtain ⟨hparts, hunknown⟩ := h
    refine .struct (Entries.keysAre_iff.2 ⟨hunknown, fun key hkey => ?_⟩) ?_
    · obtain ⟨⟨_, part⟩, hp, rfl⟩ := List.mem_map.1 hkey
      obtain ⟨value, hl, -⟩ := hparts _ part hp
      exact ⟨value, hl⟩
    · intro key part value hp hl hskip
      obtain ⟨found, hfound, hvalue⟩ := hparts key part hp
      cases hl.symm.trans hfound
      exact hvalue.resolve_left hskip

/-! ### Following references -/

theorem conforms_ref_iff {name : String} (h : schema.types.get? name = some d) :
    v.Conforms schema (.ref name) value ↔ v.Conforms schema d value := by
  constructor
  · intro hc
    cases hc with
    | ref declared conforms =>
        cases h.symm.trans declared
        exact conforms
  · exact .ref h

theorem conforms_iff_of_follow {steps : Nat} (h : schema.follow steps d = .ok target) :
    v.Conforms schema d value ↔ v.Conforms schema target value := by
  induction steps generalizing d with
  | zero =>
      cases d with
      | ref name => cases h
      | _ =>
          cases h
          exact Iff.rfl
  | succ steps ih =>
      cases d with
      | ref name =>
          obtain ⟨next, hnext, hfollow⟩ := Schema.follow_ref_eq_ok_iff.1 h
          rw [conforms_ref_iff hnext]
          exact ih hfollow
      | _ =>
          cases h
          exact Iff.rfl

/-! ### The check decides conformance -/

theorem admits_iff_conforms (hs : schema.checkStructure = .ok ()) (hd : schema.Sound d) :
    v.Admits schema d value ↔ v.Conforms schema d value := by
  refine Schema.soundInduction hs ?_ ?_ ?_ hd value
  · intro d target value _ hr ho
    rw [conforms_iff_of_follow hr, admits_of_not_opens hr ho]
    exact leafIssues_eq_nil (Schema.follow_ne_ref hr) ho
  · intro d element items hr ih
    rw [conforms_iff_of_follow hr, admits_list hr, conforms_list_iff]
    exact forall₂_congr ih
  · intro d properties nullable members hr ih
    rw [conforms_iff_of_follow hr, admits_struct hr, conforms_struct_iff]
    refine and_congr_left fun _ => forall₃_congr fun key part hp => ?_
    refine exists_congr fun value => and_congr_right fun hl => ?_
    exact or_congr_right (ih key part value hp hl)

/-- A value under a sound definition has a check. -/
theorem exists_findings (hs : schema.checkStructure = .ok ()) (hd : schema.Sound d) (value : Json) :
    ∃ issues, v.findings schema value d = .ok issues := by
  refine Schema.soundInduction hs ?_ ?_ ?_ hd value
  · intro d target value _ hr ho
    exact ⟨_, findings_of_not_opens hr ho⟩
  · intro d element items hr ih
    rw [findings_list hr]
    apply exists_gather
    intro part hpart
    obtain ⟨⟨item, place⟩, hmem, rfl⟩ := List.mem_map.1 hpart
    obtain ⟨issues, hissues⟩ := ih item (List.fst_mem_of_mem_zipIdx hmem)
    exact ⟨_, map_eq_ok_iff.2 ⟨issues, hissues, rfl⟩⟩
  · intro d properties nullable members hr ih
    have hall : ∃ all, gather (properties.map (v.propertyIssues schema members nullable)) = .ok all := by
      apply exists_gather
      intro part hpart
      obtain ⟨⟨key, d⟩, hmem, rfl⟩ := List.mem_map.1 hpart
      unfold propertyIssues
      cases hl : members.lookup key with
      | none => exact ⟨_, rfl⟩
      | some value =>
          obtain ⟨issues, hissues⟩ := ih key d value hmem hl
          by_cases hnull : (value.isNull && nullable.contains key) = true
          · exact ⟨[], by simp [hnull]⟩
          · exact ⟨issues.map (Issue.under (.name key)), by simp [hnull, hissues, Except.map]⟩
    obtain ⟨all, hall⟩ := hall
    rw [findings_struct hr]
    exact ⟨_, map_eq_ok_iff.2 ⟨all, hall, rfl⟩⟩

/-- Content of a schema in order has its issues. -/
theorem exists_validate (hs : schema.checkStructure = .ok ()) (content : Json) :
    ∃ issues, v.validate schema content = .ok issues := by
  obtain ⟨⟨root, hroot⟩, -⟩ := Schema.checkStructure_eq_ok_iff.1 hs
  obtain ⟨issues, hissues⟩ := v.exists_findings hs (Schema.sound_of_root hs hroot) content
  exact ⟨issues, by simp [validate_eq, hs, hroot, hissues, bind, Except.bind]⟩

/-- A schema in order gives every content its findings, and there are none exactly where the content
conforms to the root. -/
theorem validate_decides (h : schema.checkStructure = .ok ()) (content : Json) :
    (∃ issues, v.validate schema content = .ok issues) ∧
      (v.validate schema content = .ok [] ↔
        ∃ root, schema.types.get? schema.rootType = some root ∧ v.Conforms schema root content) := by
  constructor
  · obtain ⟨⟨root, hroot⟩, -⟩ := Schema.checkStructure_eq_ok_iff.1 h
    obtain ⟨issues, hissues⟩ := v.exists_findings h (Schema.sound_of_root h hroot) content
    refine ⟨issues, ?_⟩
    simp [validate_eq, h, hroot, hissues, bind, Except.bind]
  · rw [validate_eq_nil, and_iff_right h]
    apply exists_congr
    intro root
    rw [← Schema.root_eq_ok_iff]
    apply and_congr_right
    intro hroot
    exact admits_iff_conforms h (Schema.sound_of_root h hroot)

/-- Chains of numbers, with a reference to the chain inside it: every link may have a next one. -/
def chains : Schema :=
  Schema.ofTypes "Chain" [
    ("Chain", ⟨.ref "Link", trivial⟩),
    ("Link", ⟨.struct [("value", .number none), ("next", .ref "Chain")] (SortedSet.ofList ["next"]), by
      simp [Definition.DistinctKeys, Definition.DistinctPropertyKeys, Entries.keys]⟩)]

def twoLinks : Json :=
  .object [("next", .object [("next", .null), ("value", Json.ofNat 2)]), ("value", Json.ofNat 1)]

theorem conforms_twoLinks :
    chains.checkStructure = .ok () ∧ ∃ root, chains.types.get? chains.rootType = some root ∧
      ({ formats := .builtins } : Validator).Conforms chains root twoLinks := by
  have hs : chains.checkStructure = .ok () := by
    decide +kernel
  have hnone : ({ formats := .builtins } : Validator).validate chains twoLinks = .ok [] := by
    decide +kernel
  exact ⟨hs, (validate_decides hs twoLinks).2.1 hnone⟩

end Validator

end ContentStore

import ContentStore.Proofs.Content.Comparison

/-!
# What refinements add to the issues

Formats, accepted file types and fixed collections refine what a schema admits. They find issues of
meaning, among the issues of structure that are found without them and in front of none of these. A format
that is not registered finds none, so that registering more formats only adds issues of meaning.
-/

namespace ContentStore

/-! ## Issues with others put in -/

/-- The second list of issues is the first one with issues of meaning put in. -/
inductive Issue.Refined : List Issue → List Issue → Prop
  | nil : Refined [] []
  | keep {issues issues' : List Issue} (issue : Issue) (rest : Refined issues issues') :
      Refined (issue :: issues) (issue :: issues')
  | add {issues issues' : List Issue} {issue : Issue} (meaning : issue.kind = .validation)
      (rest : Refined issues issues') : Refined issues (issue :: issues')

namespace Issue.Refined

variable {issues issues' others others' : List Issue}

theorem same (issues : List Issue) : Refined issues issues := by
  induction issues with
  | nil => exact .nil
  | cons issue rest ih => exact .keep issue ih

theorem append (h : Refined issues issues') (ho : Refined others others') :
    Refined (issues ++ others) (issues' ++ others') := by
  induction h with
  | nil => exact ho
  | keep issue _ ih => exact .keep issue ih
  | add meaning _ ih => exact .add meaning ih

theorem under (h : Refined issues issues') (segment : Segment) :
    Refined (issues.map (Issue.under segment)) (issues'.map (Issue.under segment)) := by
  induction h with
  | nil => exact .nil
  | keep issue _ ih => exact .keep (issue.under segment) ih
  | add meaning _ ih => exact .add meaning ih

theorem sublist (h : Refined issues issues') : issues.Sublist issues' := by
  induction h with
  | nil => exact .slnil
  | keep issue _ ih => exact .cons_cons issue ih
  | add _ _ ih => exact .cons _ ih

theorem partwise : PartwiseRelation Refined where
  same := same
  append := append
  under := under

end Issue.Refined

def Issue.structural (issues : List Issue) : List Issue :=
  issues.filter fun issue => issue.kind == .schema

namespace Issue

theorem structural_append (issues others : List Issue) :
    structural (issues ++ others) = structural issues ++ structural others :=
  List.filter_append _ _

theorem structural_under (segment : Segment) (issues : List Issue) :
    structural (issues.map (Issue.under segment)) = (structural issues).map (Issue.under segment) :=
  List.filter_map

theorem partwise_structural :
    PartwiseRelation fun issues issues' => structural issues = structural issues' where
  same _ := rfl
  append h ho := by rw [structural_append, structural_append, h, ho]
  under h segment := by rw [structural_under, structural_under, h]

end Issue

/-! ## Registries with more formats -/

/-- Every format of one registry is found in the other one. -/
def FormatRegistry.Within (registry more : FormatRegistry) : Prop :=
  ∀ target id format, registry.get? target id = some format → more.get? target id = some format

namespace FormatRegistry

variable {registry more : FormatRegistry}

theorem Within.reject_eq (h : registry.Within more) {target : FormatTarget} {id : String} {format : Format}
    (hf : registry.get? target id = some format) (value : Json) :
    more.reject target id value = registry.reject target id value := by
  rw [reject, reject, hf, h target id format hf]

end FormatRegistry

namespace Validator

variable {v : Validator} {more : FormatRegistry}

/-- A format finds what it found before where it was registered, and else an issue of meaning. -/
theorem formatIssues_refined (h : v.formats.Within more) (target : FormatTarget) (format : Option String)
    (value : Json) :
    Issue.Refined (v.formatIssues target format value)
      (({ v with formats := more } : Validator).formatIssues target format value) := by
  unfold formatIssues
  cases format with
  | none => exact .same _
  | some id =>
      simp only [Option.bind_some]
      cases hf : v.formats.get? target id with
      | some format =>
          rw [h.reject_eq hf]
          exact .same _
      | none =>
          simp only [FormatRegistry.reject, hf, Option.bind_none]
          split
          · exact .add rfl .nil
          · exact .nil

theorem leafIssues_refined (h : v.formats.Within more) (d : Definition) (value : Json) :
    Issue.Refined (v.leafIssues d value) (({ v with formats := more } : Validator).leafIssues d value) := by
  cases d with
  | string format => cases value <;> first | exact formatIssues_refined h _ _ _ | exact .same _
  | number format => cases value <;> first | exact formatIssues_refined h _ _ _ | exact .same _
  | jsonObject format =>
      cases value with
      | object members =>
          simp only [leafIssues, objectIssues]
          split
          · exact formatIssues_refined h _ _ _
          · exact .same _
      | _ => exact .same _
  | _ => exact .same _

end Validator

/-! ## Schemas without refinements -/

namespace Definition

def LeafMap.unrefined : LeafMap where
  toFun
    | .string _ => .string none
    | .number _ => .number none
    | .jsonObject _ => .jsonObject none
    | .documentRef _ => .documentRef none
    | .file _ => .file none
    | d => d
  dataType_eq d := by cases d <;> rfl
  ref_eq _ := rfl

def LeafMap.same : LeafMap where
  toFun d := d
  dataType_eq _ := rfl
  ref_eq _ := rfl

theorem mapLeaves_same (d : Definition) : d.mapLeaves .same = d := by
  induction d using treeInduction with
  | leaf d hd => rw [mapLeaves_of_isLeaf _ hd, LeafMap.same]
  | list items ih => rw [mapLeaves, ih]
  | struct properties nullable ih =>
      rw [mapLeaves, mapPropertyLeaves_eq_map]
      congr 1
      refine (List.map_congr_left fun property hp => ?_).trans (List.map_id properties)
      rw [ih property hp, id]

end Definition

namespace Schema

/-- The schema without formats, accepted file types and fixed collections. -/
def withoutRefinements (schema : Schema) : Schema :=
  schema.mapLeaves .unrefined

theorem mapLeaves_same (schema : Schema) : schema.mapLeaves .same = schema := by
  obtain ⟨types, rootType, distinct⟩ := schema
  unfold mapLeaves
  congr 1
  refine SortedMap.ext ?_
  simp [SortedMap.mapValues, Definition.mapLeaves_same]

end Schema

namespace Validator

variable {v w : Validator}

theorem structural_formatIssues (v : Validator) (target : FormatTarget) (format : Option String)
    (value : Json) : Issue.structural (v.formatIssues target format value) = [] := by
  unfold formatIssues
  split <;> rfl

theorem structural_otherCollectionIssues (fixed : Option String) (members : List (String × Json)) :
    Issue.structural (otherCollectionIssues fixed members) = [] := by
  unfold otherCollectionIssues
  split
  · split <;> rfl
  · rfl

theorem structural_documentRefIssues (fixed : Option String) (members : List (String × Json)) :
    Issue.structural (documentRefIssues fixed (.object members)) =
      Issue.structural (documentRefIssues none (.object members)) := by
  simp only [documentRefIssues, Issue.structural_append, structural_otherCollectionIssues]

theorem structural_objectIssues (v : Validator) (format : Option String) (members : List (String × Json)) :
    Issue.structural (v.objectIssues format (.object members)) = [] := by
  simp only [objectIssues]
  split
  · exact v.structural_formatIssues _ _ _
  · rfl

theorem structural_fileIssues (accept : Option (SortedMap String (List String))) (value : Json) :
    Issue.structural (fileIssues accept value) = Issue.structural (fileIssues none value) := by
  unfold fileIssues
  cases FileValue.ofJson? value with
  | none => rfl
  | some file =>
      cases accept with
      | none => rfl
      | some accept =>
          simp only [unlessHolds]
          split <;> rfl

/-- Without its refinements a definition finds the same issues of structure at a value. -/
theorem structural_leafIssues (v w : Validator) (d : Definition) {value : Json}
    (h : d.opens value = false) : Issue.structural (v.leafIssues d value) =
      Issue.structural (w.leafIssues (d.mapLeaves .unrefined) value) := by
  cases d with
  | string format => cases value <;> first | rfl | exact v.structural_formatIssues _ _ _
  | number format => cases value <;> first | rfl | exact v.structural_formatIssues _ _ _
  | jsonObject format =>
      cases value with
      | object members => exact (v.structural_objectIssues _ _).trans (w.structural_objectIssues _ _).symm
      | _ => rfl
  | documentRef fixed =>
      cases value with
      | object members => exact structural_documentRefIssues fixed members
      | _ => rfl
  | file accept => exact structural_fileIssues accept value
  | _ => rfl

/-- Registering more formats puts issues of meaning among the issues of content and changes nothing else.
The issues of structure are those that are found without any refinement, in order. -/
theorem refinements_add_meaning {schema : Schema} (hs : schema.checkStructure = .ok ()) (content : Json)
    (v : Validator) {more : FormatRegistry} (hmore : v.formats.Within more) (w : Validator) :
    ∃ issues refined bare,
      v.validate schema content = .ok issues ∧
      ({ v with formats := more } : Validator).validate schema content = .ok refined ∧
      w.validate schema.withoutRefinements content = .ok bare ∧
      issues.Sublist refined ∧ Issue.Refined issues refined ∧
      (issues.filter fun issue => issue.kind == .schema) =
        bare.filter fun issue => issue.kind == .schema := by
  have hrefined := validate_related (w := { v with formats := more }) (f := .same)
    Issue.Refined.partwise hs (fun target value _ => by
      rw [Definition.mapLeaves_same]
      exact leafIssues_refined hmore target value) content
  have hbare := validate_related (v := v) (w := w) Issue.partwise_structural hs
    (fun target value ho => structural_leafIssues v w target ho) content
  rw [Schema.mapLeaves_same] at hrefined
  obtain ⟨issues, refined, hissues, hmore, hadded⟩ := hrefined
  obtain ⟨issues', bare, hissues', hwithout, hsame⟩ := hbare
  cases hissues.symm.trans hissues'
  exact ⟨issues, refined, bare, hissues, hmore, hwithout, hadded.sublist, hadded, hsame⟩

/-- Entries of a diary have a day, a rank and an author who is one of the people. -/
def diary : Schema :=
  Schema.ofTypes "Entry" [
    ("Entry", ⟨.struct [("day", .string (some "dev.collecta:String.PlainDate")),
        ("rank", .number (some "dev.collecta:Number.Integer")),
        ("author", .documentRef (some "Collection_people"))] SortedMap.empty, by
      simp [Definition.DistinctKeys, Definition.DistinctPropertyKeys, Entries.keys]⟩)]

/-- An entry of no day, with a text for its rank and a pet without an id for its author. -/
def diaryEntry : Json :=
  .object [("author", .object [("collectionId", .string "Collection_pets")]),
    ("day", .string "someday"), ("rank", .string "first")]

/-- The built-in formats find the day, the fixed collection finds the pet, and the rank and the missing id
are found in any case. -/
theorem refinements_add_meaning_diary :
    let plain : Validator := { formats := .empty }
    diary.checkStructure = .ok () ∧ plain.formats.Within .builtins ∧
    ∃ issues refined bare,
      plain.validate diary diaryEntry = .ok issues ∧
      ({ formats := .builtins } : Validator).validate diary diaryEntry = .ok refined ∧
      plain.validate diary.withoutRefinements diaryEntry = .ok bare ∧
      issues.map Issue.kind = [.schema, .schema, .validation] ∧
      refined.map Issue.kind = [.validation, .schema, .schema, .validation] ∧
      bare.map Issue.kind = [.schema, .schema] ∧
      Issue.Refined issues refined ∧
      (issues.filter fun issue => issue.kind == .schema) =
        bare.filter fun issue => issue.kind == .schema := by
  intro plain
  have hs : diary.checkStructure = .ok () := by
    decide +kernel
  have hmore : plain.formats.Within .builtins := by
    rintro target id format ⟨⟩
  have hplain : (plain.validate diary diaryEntry).map (List.map Issue.kind) =
      .ok [.schema, .schema, .validation] := by
    decide +kernel
  have hrefined : (({ formats := .builtins } : Validator).validate diary diaryEntry).map
      (List.map Issue.kind) = .ok [.validation, .schema, .schema, .validation] := by
    decide +kernel
  have hbare : (plain.validate diary.withoutRefinements diaryEntry).map (List.map Issue.kind) =
      .ok [.schema, .schema] := by
    decide +kernel
  obtain ⟨issues, refined, bare, hissues, hmoreIssues, hfew, -, hadded, hsame⟩ :=
    refinements_add_meaning hs diaryEntry plain hmore plain
  have hkinds : ∀ {findings : Findings} {issues kinds}, findings = .ok issues →
      findings.map (List.map Issue.kind) = .ok kinds → issues.map Issue.kind = kinds := by
    rintro _ issues kinds rfl h
    exact Except.ok.inj h
  exact ⟨hs, hmore, issues, refined, bare, hissues, hmoreIssues, hfew, hkinds hissues hplain,
    hkinds hmoreIssues hrefined, hkinds hfew hbare, hadded, hsame⟩

end Validator

end ContentStore

import ContentStore.Content.Validator
import ContentStore.Proofs.Content.Visits

/-!
# What a run of the check finds

The findings of a value are read off part by part: those of a struct or list are those of its parts with
one step put in front, joined in order. A run of the check, wherever it stands and whatever it has
reported, adds exactly the findings of the value to its issues and comes back to where it stood.
-/

namespace ContentStore

namespace Issue

def below (path : Path) (issue : Issue) : Issue :=
  { issue with path := path ++ issue.path }

@[simp] theorem below_nil (issue : Issue) : issue.below [] = issue := rfl

theorem below_below (path way : Path) (issue : Issue) :
    (issue.below way).below path = issue.below (path ++ way) := by
  simp [below]

end Issue

namespace Validator

/-! ### Findings, part by part -/

def unlessHolds (condition : Bool) (fault : Fault) : List Issue :=
  if condition then [] else [fault.issue []]

def formatIssues (v : Validator) (target : FormatTarget) (format : Option String) (value : Json) :
    List Issue :=
  match format.bind fun id => v.formats.reject target id value with
  | some message => [(Fault.rejected message).issue []]
  | none => []

def unknownKeyIssues (declared : List String) (members : List (String × Json)) : List Issue :=
  (members.filter fun (key, _) => !declared.contains key).map fun (key, _) =>
    (Fault.unknownKey key).issue [.name key]

def textKeyIssues (members : List (String × Json)) (key : String) : List Issue :=
  match members.lookup key with
  | none => [(Fault.missingKey key).issue [.name key]]
  | some (.string _) => []
  | some other => [(Fault.wrongType "string" other).issue [.name key]]

def otherCollectionIssues (fixed : Option String) (members : List (String × Json)) : List Issue :=
  match fixed, members.lookup "collectionId" with
  | some fixed, some (.string actual) =>
      if fixed = actual then [] else [(Fault.otherCollection fixed).issue [.name "collectionId"]]
  | _, _ => []

def documentRefIssues (fixed : Option String) : Json → List Issue
  | .object members =>
      documentKeys.flatMap (textKeyIssues members) ++ unknownKeyIssues documentKeys members ++
        otherCollectionIssues fixed members
  | value => [(Fault.wrongType "Object" value).issue []]

def fileIssues (accept : Option (SortedMap String (List String))) (value : Json) : List Issue :=
  match FileValue.ofJson? value, accept with
  | none, _ => [Fault.notAFile.issue []]
  | some _, none => []
  | some file, some accept =>
      unlessHolds (accepts accept file.name file.mimeType)
        (.fileNotAccepted file.name file.mimeType accept.keys)

def objectIssues (v : Validator) (format : Option String) : Json → List Issue
  | .object members =>
      if Json.fitsDepth v.maxObjectDepth (.object members) then
        v.formatIssues .jsonObject format (.object members)
      else [Fault.notAnObject.issue []]
  | .array _ => [Fault.notAnObject.issue []]
  | value => [(Fault.wrongType "Object" value).issue []]

/-- The issues of a value whose parts need no check of their own, under a definition that is no
reference. -/
def leafIssues (v : Validator) (d : Definition) (value : Json) : List Issue :=
  match d with
  | .string format =>
      match value with
      | .string _ => v.formatIssues .string format value
      | _ => [(Fault.wrongType "string" value).issue []]
  | .number format =>
      match value with
      | .number _ => v.formatIssues .number format value
      | _ => [(Fault.wrongType "number" value).issue []]
  | .boolean =>
      match value with
      | .bool _ => []
      | _ => [(Fault.wrongType "boolean" value).issue []]
  | .stringLiteral s =>
      unlessHolds (isMember value (.string s)) (.wrongType (Fault.expected (.string s)) value)
  | .numberLiteral x =>
      unlessHolds (isMember value (.number x)) (.wrongType (Fault.expected (.number x)) value)
  | .booleanLiteral b =>
      match value with
      | .bool actual => unlessHolds (b == actual) (.wrongType (if b then "true" else "false") value)
      | _ => [(Fault.wrongType (if b then "true" else "false") value).issue []]
  | .enum members =>
      let expected := members.values.map fun m => Fault.expected m.value
      unlessHolds (members.values.any fun m => isMember value m.value)
        (.wrongType (String.intercalate " | " expected) value)
  | .struct _ _ => [(Fault.wrongType "Object" value).issue []]
  | .list _ => [(Fault.wrongType "Array" value).issue []]
  | .documentRef fixed => documentRefIssues fixed value
  | .file accept => fileIssues accept value
  | .jsonObject format => v.objectIssues format value
  | .ref _ => []

def propertyFindings (parts : List (String × Part Findings)) (nullable : SortedSet String)
    (properties : List (String × Definition)) : Findings :=
  gather (properties.map fun (key, d) =>
    match parts.lookup key with
    | none => .ok [(Fault.missingKey key).issue [.name key]]
    | some part =>
        if part.value.isNull && nullable.contains key then .ok []
        else (part.check d).map (List.map (Issue.under (.name key))))

def itemFindings (parts : List (Part Findings)) (d : Definition) : Findings :=
  gather (parts.zipIdx.map fun (part, place) =>
    (part.check d).map (List.map (Issue.under (.index place))))

mutual

/-- The findings of a value under a definition. -/
def findings (v : Validator) (schema : Schema) : Json → Definition → Findings
  | .object members, d => do
      match ← schema.resolve d with
      | .struct properties nullable =>
          let issues ← propertyFindings (memberReadings v schema members) nullable properties
          return issues ++ unknownKeyIssues (Entries.keys properties) members
      | d => return v.leafIssues d (.object members)
  | .array items, d => do
      match ← schema.resolve d with
      | .list element => itemFindings (itemReadings v schema items) element
      | d => return v.leafIssues d (.array items)
  | value, d => do return v.leafIssues (← schema.resolve d) value

def itemReadings (v : Validator) (schema : Schema) : List Json → List (Part Findings)
  | [] => []
  | item :: rest => ⟨item, findings v schema item⟩ :: itemReadings v schema rest

def memberReadings (v : Validator) (schema : Schema) :
    List (String × Json) → List (String × Part Findings)
  | [] => []
  | (key, value) :: rest => (key, ⟨value, findings v schema value⟩) :: memberReadings v schema rest

end

variable {v : Validator} {schema : Schema} {d : Definition} {value : Json}

theorem itemReadings_eq_map (v : Validator) (schema : Schema) (items : List Json) :
    itemReadings v schema items = items.map fun item => ⟨item, findings v schema item⟩ := by
  induction items with
  | nil => rfl
  | cons item rest ih => simp [itemReadings, ih]

theorem memberReadings_eq_map (v : Validator) (schema : Schema) (members : List (String × Json)) :
    memberReadings v schema members =
      members.map fun (key, value) => (key, ⟨value, findings v schema value⟩) := by
  induction members with
  | nil => rfl
  | cons entry rest ih => simp [memberReadings, ih]

def propertyIssues (v : Validator) (schema : Schema) (members : List (String × Json))
    (nullable : SortedSet String) (property : String × Definition) : Findings :=
  match members.lookup property.1 with
  | none => .ok [(Fault.missingKey property.1).issue [.name property.1]]
  | some value =>
      if value.isNull && nullable.contains property.1 then .ok []
      else (v.findings schema value property.2).map (List.map (Issue.under (.name property.1)))

/-- The findings of a value, from what its definition leads to. -/
def findingsInto (v : Validator) (schema : Schema) : Json → Definition → Findings
  | .object members, .struct properties nullable =>
      (gather (properties.map (v.propertyIssues schema members nullable))).map
        (· ++ unknownKeyIssues (Entries.keys properties) members)
  | .array items, .list element => gather (items.zipIdx.map fun item =>
      (v.findings schema item.1 element).map (List.map (Issue.under (.index item.2))))
  | value, d => .ok (v.leafIssues d value)

theorem findings_eq (v : Validator) (schema : Schema) (value : Json) (d : Definition) :
    v.findings schema value d = (schema.resolve d).bind (v.findingsInto schema value) := by
  cases value with
  | object members =>
      have hlookup : ∀ key, (memberReadings v schema members).lookup key =
          (members.lookup key).map fun value => ⟨value, v.findings schema value⟩ := by
        intro key
        rw [memberReadings_eq_map]
        exact Entries.lookup_map (fun _ value => (⟨value, v.findings schema value⟩ : Part Findings)) key
          members
      have hparts : ∀ nullable properties,
          propertyFindings (memberReadings v schema members) nullable properties =
            gather (properties.map (v.propertyIssues schema members nullable)) := by
        intro nullable properties
        refine congrArg gather (List.map_congr_left fun property _ => ?_)
        simp only [hlookup, propertyIssues]
        cases members.lookup property.1 <;> rfl
      simp only [findings, hparts]
      refine congrArg (Except.bind _) (funext fun target => ?_)
      cases target with
      | struct properties nullable =>
          show (gather _).bind _ = (gather _).map _
          cases gather (properties.map (v.propertyIssues schema members nullable)) <;> rfl
      | _ => rfl
  | array items =>
      simp only [findings, itemFindings, itemReadings_eq_map, List.zipIdx_map, List.map_map]
      refine congrArg (Except.bind _) (funext fun target => ?_)
      cases target <;> rfl
  | _ =>
      simp only [findings]
      refine congrArg (Except.bind _) (funext fun target => ?_)
      cases target <;> rfl

theorem findings_struct {properties : List (String × Definition)} {nullable : SortedSet String}
    (h : schema.resolve d = .ok (.struct properties nullable)) (members : List (String × Json)) :
    v.findings schema (.object members) d =
      (gather (properties.map (v.propertyIssues schema members nullable))).map
        (· ++ unknownKeyIssues (Entries.keys properties) members) := by
  rw [findings_eq, h]
  rfl

theorem findings_list {element : Definition} (h : schema.resolve d = .ok (.list element))
    (items : List Json) :
    v.findings schema (.array items) d = gather (items.zipIdx.map fun item =>
      (v.findings schema item.1 element).map (List.map (Issue.under (.index item.2)))) := by
  rw [findings_eq, h]
  rfl

theorem findings_of_not_opens {target : Definition} (h : schema.resolve d = .ok target)
    (ho : target.opens value = false) :
    v.findings schema value d = .ok (v.leafIssues target value) := by
  rw [findings_eq, h]
  cases value <;> cases target <;> first | rfl | cases ho

theorem findings_of_resolve_error {e : StructureError} (h : schema.resolve d = .error e) (value : Json) :
    v.findings schema value d = .error e := by
  rw [findings_eq, h]
  rfl

/-! ### Runs, part by part -/

/-- Wherever it stands, a run adds the given findings to its issues and comes back. -/
def Reports (run : Run Unit) (alone : Findings) : Prop :=
  Traversal.Finds (fun issue issues => issues ++ [issue]) Issue.below run alone

theorem reports_pure : Reports (pure ()) (.ok []) := Traversal.finds_pure

theorem reports_report (fault : Fault) : Reports (report fault) (.ok [fault.issue []]) :=
  Traversal.finds_gatherHere fun path => by simp [Fault.issue, Issue.below]

theorem Reports.inside {run : Run Unit} {alone : Findings} (h : Reports run alone) (segment : Segment) :
    Reports (Traversal.inside segment run) (alone.map (List.map (Issue.under segment))) :=
  Traversal.Finds.inside (fun path segment issue => issue.below_below path [segment]) h segment

theorem reports_unless (condition : Bool) (fault : Fault) :
    Reports (unless condition do report fault) (.ok (unlessHolds condition fault)) := by
  cases condition with
  | true => exact reports_pure
  | false => exact reports_report fault

theorem reports_checkFormat (v : Validator) (target : FormatTarget) (format : Option String)
    (value : Json) :
    Reports (v.checkFormat target format value) (.ok (v.formatIssues target format value)) := by
  unfold checkFormat formatIssues
  cases format with
  | none => exact reports_pure
  | some id =>
      simp only [Option.bind_some]
      cases v.formats.reject target id value with
      | none => exact reports_pure
      | some message => exact reports_report (.rejected message)

theorem gather_map_ok {ε α β : Type} (f : α → List β) (parts : List α) :
    gather (parts.map fun part => (.ok (f part) : Except ε (List β))) = .ok (parts.flatMap f) := by
  induction parts with
  | nil => rfl
  | cons part rest ih => simp [ih, Except.map]

theorem reports_checkUnknownKeys (declared : List String) (members : List (String × Json)) :
    Reports (checkUnknownKeys declared members) (.ok (unknownKeyIssues declared members)) := by
  unfold checkUnknownKeys unknownKeyIssues
  rw [List.map_eq_flatMap, ← gather_map_ok]
  exact Traversal.finds_forM fun member _ => (reports_report (.unknownKey member.1)).inside (.name member.1)

theorem reports_checkTextKey (members : List (String × Json)) (key : String) :
    Reports (checkTextKey members key) (.ok (textKeyIssues members key)) := by
  unfold checkTextKey textKeyIssues
  cases members.lookup key with
  | none => exact (reports_report (.missingKey key)).inside (.name key)
  | some value =>
      cases value with
      | string text => exact reports_pure.inside (.name key)
      | _ => exact (reports_report (.wrongType "string" _)).inside (.name key)

theorem reports_checkFixedCollection (fixed : Option String) (members : List (String × Json)) :
    Reports (checkFixedCollection fixed members) (.ok (otherCollectionIssues fixed members)) := by
  unfold checkFixedCollection otherCollectionIssues
  cases fixed with
  | none => exact reports_pure
  | some fixed =>
      cases members.lookup "collectionId" with
      | none => exact reports_pure
      | some value =>
          cases value with
          | string actual =>
              by_cases h : fixed = actual
              · simp only [if_pos h]
                exact reports_pure
              · simp only [if_neg h]
                exact (reports_report (.otherCollection fixed)).inside (.name "collectionId")
          | _ => exact reports_pure

theorem reports_checkDocumentRef (fixed : Option String) (value : Json) :
    Reports (checkDocumentRef fixed value) (.ok (documentRefIssues fixed value)) := by
  cases value with
  | object members =>
      have htexts : Reports (documentKeys.forM (checkTextKey members))
          (.ok (documentKeys.flatMap (textKeyIssues members))) := by
        rw [← gather_map_ok]
        exact Traversal.finds_forM fun key _ => reports_checkTextKey members key
      have hunknown := reports_checkUnknownKeys documentKeys members
      have hfixed := reports_checkFixedCollection fixed members
      rw [documentRefIssues, List.append_assoc]
      exact htexts.seq (hunknown.seq hfixed)
  | _ => exact reports_report (.wrongType "Object" _)

theorem reports_checkFile (accept : Option (SortedMap String (List String))) (value : Json) :
    Reports (checkFile accept value) (.ok (fileIssues accept value)) := by
  unfold checkFile fileIssues
  cases FileValue.ofJson? value with
  | none => exact reports_report .notAFile
  | some file =>
      cases accept with
      | none => exact reports_pure
      | some accept => exact reports_unless _ (.fileNotAccepted file.name file.mimeType accept.keys)

theorem reports_checkObject (v : Validator) (format : Option String) (value : Json) :
    Reports (v.checkObject format value) (.ok (v.objectIssues format value)) := by
  cases value with
  | object members =>
      rw [checkObject, objectIssues]
      split
      · exact reports_checkFormat v .jsonObject format _
      · exact reports_report .notAnObject
  | array items => exact reports_report .notAnObject
  | _ => exact reports_report (.wrongType "Object" _)

/-- At a value that is not looked into, a run reports the issues of the definition there. -/
theorem reports_checkLeaf (v : Validator) (d : Definition) (value : Json) :
    Reports (v.checkLeaf d value) (.ok (v.leafIssues d value)) := by
  cases d with
  | string format =>
      cases value with
      | string text => exact reports_checkFormat v .string format _
      | _ => exact reports_report (.wrongType "string" _)
  | number format =>
      cases value with
      | number n => exact reports_checkFormat v .number format _
      | _ => exact reports_report (.wrongType "number" _)
  | boolean =>
      cases value with
      | bool b => exact reports_pure
      | _ => exact reports_report (.wrongType "boolean" _)
  | stringLiteral s => exact reports_unless _ _
  | numberLiteral x => exact reports_unless _ _
  | booleanLiteral b =>
      cases value with
      | bool actual => exact reports_unless _ _
      | _ => exact reports_report (.wrongType (if b then "true" else "false") _)
  | enum members => exact reports_unless _ _
  | struct properties nullable => exact reports_report (.wrongType "Object" _)
  | list element => exact reports_report (.wrongType "Array" _)
  | documentRef fixed => exact reports_checkDocumentRef fixed value
  | file accept => exact reports_checkFile accept value
  | jsonObject format => exact reports_checkObject v format value
  | ref name => exact reports_pure

theorem memberParts_eq_map (v : Validator) (schema : Schema) (members : List (String × Json)) :
    memberParts v schema members =
      members.map fun (key, value) => (key, ⟨value, check v schema value⟩) := by
  induction members with
  | nil => rfl
  | cons entry rest ih => simp [memberParts, ih]

theorem itemParts_eq_map (v : Validator) (schema : Schema) (items : List Json) :
    itemParts v schema items = items.map fun item => ⟨item, check v schema item⟩ := by
  induction items with
  | nil => rfl
  | cons item rest ih => simp [itemParts, ih]

def checkProperty (v : Validator) (schema : Schema) (members : List (String × Json))
    (nullable : SortedSet String) (property : String × Definition) : Run Unit :=
  Traversal.inside (.name property.1) <|
    match members.lookup property.1 with
    | none => report (.missingKey property.1)
    | some value =>
        if value.isNull && nullable.contains property.1 then pure ()
        else v.check schema value property.2

/-- The run over a value, from what its definition leads to. -/
def checkInto (v : Validator) (schema : Schema) : Json → Definition → Run Unit
  | .object members, .struct properties nullable => do
      properties.forM (v.checkProperty schema members nullable)
      checkUnknownKeys (Entries.keys properties) members
  | .array items, .list element => items.zipIdx.forM fun item =>
      Traversal.inside (.index item.2) (v.check schema item.1 element)
  | value, d => v.checkLeaf d value

theorem check_eq (v : Validator) (schema : Schema) (value : Json) (d : Definition) :
    v.check schema value d = (do v.checkInto schema value (← schema.resolve d)) := by
  cases value with
  | object members =>
      have hlookup : ∀ key, (memberParts v schema members).lookup key =
          (members.lookup key).map fun value => ⟨value, v.check schema value⟩ := by
        intro key
        rw [memberParts_eq_map]
        exact Entries.lookup_map (fun _ value => (⟨value, v.check schema value⟩ : Part (Run Unit))) key
          members
      have hparts : ∀ nullable properties,
          checkProperties nullable (memberParts v schema members) properties =
            properties.forM (v.checkProperty schema members nullable) := by
        intro nullable properties
        refine congrArg (properties.forM ·) (funext fun property => ?_)
        simp only [hlookup, checkProperty]
        cases members.lookup property.1 <;> rfl
      simp only [check, hparts]
      refine congrArg (_ >>= ·) (funext fun target => ?_)
      cases target <;> rfl
  | array items =>
      simp only [check, itemParts_eq_map]
      refine congrArg (_ >>= ·) (funext fun target => ?_)
      cases target with
      | list element =>
          show checkItems (items.map fun item => ⟨item, v.check schema item⟩) element = _
          rw [checkItems, List.zipIdx_map, List.forM_eq_forM, List.forM_map]
          rfl
      | _ => rfl
  | _ =>
      simp only [check]
      refine congrArg (_ >>= ·) (funext fun target => ?_)
      cases target <;> rfl

theorem check_struct {properties : List (String × Definition)} {nullable : SortedSet String}
    (h : schema.resolve d = .ok (.struct properties nullable)) (members : List (String × Json)) :
    v.check schema (.object members) d = (do
      properties.forM (v.checkProperty schema members nullable)
      checkUnknownKeys (Entries.keys properties) members) := by
  rw [check_eq, h]
  rfl

theorem check_list {element : Definition} (h : schema.resolve d = .ok (.list element))
    (items : List Json) :
    v.check schema (.array items) d = items.zipIdx.forM fun item =>
      Traversal.inside (.index item.2) (v.check schema item.1 element) := by
  rw [check_eq, h]
  rfl

theorem check_of_not_opens {target : Definition} (h : schema.resolve d = .ok target)
    (ho : target.opens value = false) : v.check schema value d = v.checkLeaf target value := by
  rw [check_eq, h]
  cases value <;> cases target <;> first | rfl | cases ho

theorem check_of_resolve_error {e : StructureError} (h : schema.resolve d = .error e) (value : Json)
    (trail : Trail (List Issue)) : v.check schema value d trail = .error e := by
  rw [check_eq, h]
  rfl

theorem reports_checkProperty {members : List (String × Json)} {property : String × Definition}
    (h : ∀ value, members.lookup property.1 = some value →
      Reports (v.check schema value property.2) (v.findings schema value property.2))
    (nullable : SortedSet String) :
    Reports (v.checkProperty schema members nullable property)
      (v.propertyIssues schema members nullable property) := by
  unfold checkProperty propertyIssues
  cases hl : members.lookup property.1 with
  | none => exact (reports_report (.missingKey property.1)).inside (.name property.1)
  | some value =>
      by_cases hnull : (value.isNull && nullable.contains property.1) = true
      · simp only [if_pos hnull]
        exact reports_pure.inside (.name property.1)
      · simp only [if_neg hnull]
        exact (h value hl).inside (.name property.1)

/-- A run over a value reports the findings of the value, from wherever it starts. -/
theorem reports_check (v : Validator) (schema : Schema) (value : Json) (d : Definition) :
    Reports (v.check schema value d) (v.findings schema value d) := by
  have hleaf : ∀ {d target : Definition} {value : Json}, schema.resolve d = .ok target →
      target.opens value = false →
      Reports (v.check schema value d) (v.findings schema value d) := by
    intro d target value hr ho
    rw [check_of_not_opens hr ho, findings_of_not_opens hr ho]
    exact reports_checkLeaf v target value
  induction value, d using schema.walkInduction with
  | null d =>
      cases hr : schema.resolve d with
      | error e =>
          rw [findings_of_resolve_error hr]
          exact check_of_resolve_error hr .null
      | ok target => exact hleaf hr (by cases target <;> rfl)
  | stuck d value e _ hr =>
      rw [findings_of_resolve_error hr]
      exact check_of_resolve_error hr value
  | stops d target value _ hr ho => exact hleaf hr ho
  | list d element items hr ih =>
      rw [findings_list hr, check_list hr]
      refine Traversal.finds_forM fun item hitem => ?_
      exact (ih item.1 (List.fst_mem_of_mem_zipIdx hitem)).inside (.index item.2)
  | struct d properties nullable members hr ih =>
      have hproperties : Reports (properties.forM (v.checkProperty schema members nullable))
          (gather (properties.map (v.propertyIssues schema members nullable))) :=
        Traversal.finds_forM fun property hp =>
          reports_checkProperty (fun value hl => ih property.1 property.2 value hp hl) nullable
      rw [findings_struct hr, check_struct hr]
      exact hproperties.seq (reports_checkUnknownKeys (Entries.keys properties) members)

theorem issues_eq_findings (v : Validator) (schema : Schema) (value : Json) (d : Definition) :
    v.issues schema value d = v.findings schema value d :=
  (reports_check v schema value d).fromRoot_append Issue.below_nil

theorem validate_eq (v : Validator) (schema : Schema) (content : Json) :
    v.validate schema content = (do
      schema.checkStructure
      v.findings schema content (← schema.root)) := by
  simp only [validate, issues_eq_findings]

/-- A run that reports something alone reports the same from any place, with the way there put in front
and after everything that was reported before, and comes back to the place. -/
theorem check_eq_of_issues {alone : List Issue} (h : v.issues schema value d = .ok alone)
    (trail : Trail (List Issue)) : v.check schema value d trail =
      .ok ((), { trail with gathered := trail.gathered ++ alone.map (Issue.below trail.path) }) := by
  rw [issues_eq_findings] at h
  rw [reports_check v schema value d trail, h, ← Trail.after_append]
  rfl

end Validator

end ContentStore

import ContentStore.Engine.Install
import ContentStore.Proofs.Id.Proto
import ContentStore.Proofs.Values

/-!
# What a pack has to meet

Every place of a pack that holds a reference demands something of the pack, as its size and the structure
of its schemas do. The check of a pack reports the demands that are not met, each once and where it
stands, in the order of the pack.
-/

namespace ContentStore

inductive Demand where
  | size (max : Nat)
  | parent (index : Nat) (text : String)
  | reference (kind : Kind) (text : String)
  | usable (schema : Schema)
  | collection (text : String)

/-- A text is the proto id of an entry of the pack. -/
def Pack.HasEntry (pack : Pack) (kind : Kind) (text : String) : Prop :=
  ∃ p : ProtoId, p.kind = kind ∧ p.index < pack.count kind ∧ text = p.text

/-- When a demand is met. Parents come before their children, and the collection of a document is one of
the pack; every other reference may go to any entry of the kind. -/
def Demand.Met (pack : Pack) : Demand → Prop
  | .size max => pack.entityCount ≤ max
  | .parent index text =>
      (∃ p : ProtoId, p.kind = .collectionCategory ∧ p.index < index ∧ text = p.text) ∨
        ∃ id : CollectionCategoryId, text = id.text
  | .reference kind text => pack.HasEntry kind text ∨ ∃ id : RealId kind, text = id.text
  | .usable schema => schema.checkStructure = .ok ()
  | .collection text => pack.HasEntry .collection text

/-! ### The places of a pack -/

/-- The demand of a category: that of its parent. -/
def CategorySpec.demands (index : Nat) (spec : CategorySpec) : List (Path × Demand) :=
  spec.parentId.toList.map fun text =>
    ([.name "collectionCategories", .index index, .name "parentId"], .parent index text)

/-- The demands of a collection: those of its settings, of its schema, and of each collection that is
fixed somewhere in a declared type, the sign for its own apart. -/
def CollectionSpec.demands (index : Nat) (spec : CollectionSpec) : List (Path × Demand) :=
  let place (steps : Path) : Path := .name "collections" :: .index index :: steps
  (spec.settings.categoryId.toList.map fun text =>
    (place [.name "settings", .name "collectionCategoryId"],
      .reference .collectionCategory text)) ++
  (spec.settings.defaultAppId.toList.map fun text =>
    (place [.name "settings", .name "defaultCollectionViewAppId"], .reference .app text)) ++
  (place [.name "schema"], .usable spec.schema) ::
  spec.schema.types.entries.flatMap fun (typeName, d) => d.nodes.filterMap fun node =>
    match node with
    | .documentRef (some text) =>
        if text = selfCollection then none
        else some (place [.name "schema", .name "types", .name typeName, .name "collectionId"],
          .reference .collection text)
    | _ => none

/-- The demands of an app: those of its targets. -/
def AppSpec.demands (index : Nat) (spec : AppSpec) : List (Path × Demand) :=
  spec.targets.zipIdx.map fun (text, position) =>
    ([.name "apps", .index index, .name "targetCollectionIds", .index position],
      .reference .collection text)

/-- The demands of a visited position: those of the texts of a document reference. -/
def Visit.demands (visit : Visit) : List (Path × Demand) :=
  match visit.definition, visit.value with
  | .documentRef _, .object members =>
      [("collectionId", Kind.collection), ("documentId", Kind.document)].filterMap fun (key, kind) =>
        match members.lookup key with
        | some (.string text) => some (visit.path ++ [.name key], .reference kind text)
        | _ => none
  | _, _ => []

/-- The demands of a document: that of its collection, and those of its content where the collection is
found and the content can be walked. -/
def Pack.documentDemands (pack : Pack) (index : Nat) (spec : PackDocumentSpec) : List (Path × Demand) :=
  let place (steps : Path) : Path := .name "documents" :: .index index :: steps
  (place [.name "collectionId"], .collection spec.collectionId) ::
  match pack.collectionOf? spec with
  | none => []
  | some collection =>
      match collection.schema.visitContent spec.content with
      | .error _ => []
      | .ok visits => (visits.flatMap Visit.demands).map fun demand =>
          (place (.name "content" :: demand.1), demand.2)

def Pack.demands (pack : Pack) (maxEntities : Nat) : List (Path × Demand) :=
  ([], .size maxEntities) ::
    (pack.categories.zipIdx.flatMap fun (spec, index) => spec.demands index) ++
    (pack.collections.zipIdx.flatMap fun (spec, index) => spec.demands index) ++
    (pack.apps.zipIdx.flatMap fun (spec, index) => spec.demands index) ++
    pack.documents.zipIdx.flatMap fun (spec, index) => pack.documentDemands index spec

/-! ### The check of one demand -/

namespace Pack

variable {pack : Pack} {kind : Kind} {text : String}

theorem hasEntry_text_iff {p : ProtoId} :
    pack.HasEntry kind p.text ↔ p.kind = kind ∧ p.index < pack.count kind := by
  constructor
  · rintro ⟨other, hkind, hlt, htext⟩
    cases ProtoId.text_injective htext
    exact ⟨hkind, hlt⟩
  · intro h
    exact ⟨p, h.1, h.2, rfl⟩

theorem referenceFault?_eq_none_iff :
    pack.referenceFault? kind text = none ↔ (Demand.reference kind text).Met pack := by
  rw [referenceFault?, Demand.Met]
  cases hp : ProtoId.ofText? text with
  | some p =>
      cases ProtoId.ofText?_eq_some_iff.1 hp
      have hreal : ¬ ∃ id : RealId kind, p.text = id.text := by
        rintro ⟨id, hid⟩
        exact id.text_ne_protoId p hid.symm
      rw [or_iff_left hreal, hasEntry_text_iff]
      by_cases hkind : p.kind = kind
      · by_cases hlt : p.index < pack.count kind
        · simp [hkind, hlt]
        · simp [hkind, hlt, Nat.le_of_not_lt hlt]
      · simp [hkind]
  | none =>
      have hentry : ¬ pack.HasEntry kind text := by
        rintro ⟨p, -, -, rfl⟩
        simp at hp
      rw [or_iff_right hentry]
      by_cases hshaped : RealId.shaped kind text = true
      · simp only [hshaped, if_true, true_iff]
        exact ⟨⟨text, hshaped⟩, rfl⟩
      · have hreal : ¬ ∃ id : RealId kind, text = id.text := by
          rintro ⟨id, rfl⟩
          exact hshaped id.valid
        simp [hshaped, hreal]

theorem parentFault?_eq_none_iff {index : Nat} :
    pack.parentFault? index text = none ↔ (Demand.parent index text).Met pack := by
  unfold parentFault?
  cases hp : ProtoId.ofKind? .collectionCategory text with
  | some p =>
      obtain ⟨rfl, hkind⟩ := ProtoId.ofKind?_eq_some_iff.1 hp
      have hreal : ¬ ∃ id : CollectionCategoryId, p.text = id.text := by
        rintro ⟨id, hid⟩
        exact id.text_ne_protoId p hid.symm
      have hbefore : (Demand.parent index p.text).Met pack ↔ p.index < index := by
        rw [Demand.Met, or_iff_left hreal]
        constructor
        · rintro ⟨other, -, hlt, htext⟩
          cases ProtoId.text_injective htext
          exact hlt
        · intro hlt
          exact ⟨p, hkind, hlt, rfl⟩
      rw [hbefore]
      by_cases hlt : p.index < index
      · simp [hlt]
      · simp [hlt, Nat.le_of_not_lt hlt]
  | none =>
      have hproto : ∀ p : ProtoId, p.kind = .collectionCategory → text ≠ p.text := by
        rintro p hkind rfl
        simp [ProtoId.ofKind?_eq_some_iff.2 ⟨rfl, hkind⟩] at hp
      rw [referenceFault?_eq_none_iff, Demand.Met, Demand.Met]
      apply or_congr_left
      constructor
      · rintro ⟨p, hkind, -, htext⟩
        exact absurd htext (hproto p hkind)
      · rintro ⟨p, hkind, -, htext⟩
        exact absurd htext (hproto p hkind)

theorem structureFault?_eq_none_iff {schema : Schema} :
    structureFault? schema = none ↔ (Demand.usable schema).Met pack := by
  rw [structureFault?, Demand.Met]
  cases schema.checkStructure <;> simp

theorem collectionOf?_eq_some_iff {spec : PackDocumentSpec} {collection : CollectionSpec} :
    pack.collectionOf? spec = some collection ↔ ∃ p : ProtoId, p.kind = .collection ∧
      spec.collectionId = p.text ∧ pack.collections[p.index]? = some collection := by
  unfold collectionOf?
  rw [Option.bind_eq_some_iff]
  apply exists_congr
  intro p
  rw [ProtoId.ofKind?_eq_some_iff, and_comm (a := spec.collectionId = p.text), and_assoc]

theorem collectionOf?_isSome_iff {spec : PackDocumentSpec} :
    (pack.collectionOf? spec).isSome = true ↔ (Demand.collection spec.collectionId).Met pack := by
  rw [Option.isSome_iff_exists, Demand.Met]
  simp only [collectionOf?_eq_some_iff]
  constructor
  · rintro ⟨collection, p, hkind, htext, hget⟩
    exact ⟨p, hkind, (List.getElem?_eq_some_iff.1 hget).1, htext⟩
  · rintro ⟨p, hkind, hlt, htext⟩
    exact ⟨pack.collections[p.index], p, hkind, htext, List.getElem?_eq_getElem hlt⟩

def fault? (pack : Pack) : Demand → Option PackFault
  | .size max => if max < pack.entityCount then some (.tooLarge pack.entityCount max) else none
  | .parent index text => pack.parentFault? index text
  | .reference kind text => pack.referenceFault? kind text
  | .usable schema => structureFault? schema
  | .collection text =>
      if (pack.collectionOf? ⟨text, .null⟩).isSome then none else some (.notOfThisPack text)

theorem fault?_eq_none_iff {demand : Demand} : pack.fault? demand = none ↔ demand.Met pack := by
  cases demand with
  | size max => simp [fault?, Demand.Met]
  | parent index text => exact parentFault?_eq_none_iff
  | reference kind text => exact referenceFault?_eq_none_iff
  | usable schema => exact structureFault?_eq_none_iff
  | collection text =>
      have hsome := @collectionOf?_isSome_iff pack ⟨text, .null⟩
      rw [fault?, ← hsome]
      cases (pack.collectionOf? ⟨text, .null⟩).isSome <;> simp

/-! ### The check of all demands -/

def demandIssue (pack : Pack) (demand : Path × Demand) : List Issue :=
  issueAt demand.1 (pack.fault? demand.2)

theorem demandIssue_reference {path : Path} :
    pack.demandIssue (path, .reference kind text) = issueAt path (pack.referenceFault? kind text) :=
  rfl

theorem demandIssue_collection {path : Path} {spec : PackDocumentSpec} :
    pack.demandIssue (path, .collection spec.collectionId) = issueAt path
      (if (pack.collectionOf? spec).isSome then none else some (.notOfThisPack spec.collectionId)) :=
  rfl

theorem optionalIssue_eq {path : Path} {text : Option String} :
    pack.optionalIssue kind path text =
      (text.toList.map fun text => (path, Demand.reference kind text)).flatMap pack.demandIssue := by
  cases text <;> simp [optionalIssue, demandIssue, fault?, issueAt]

theorem categoryIssues_eq {index : Nat} {spec : CategorySpec} :
    pack.categoryIssues index spec = (spec.demands index).flatMap pack.demandIssue := by
  unfold categoryIssues CategorySpec.demands
  cases spec.parentId <;> simp [demandIssue, fault?, issueAt]

theorem collectionIssues_eq {index : Nat} {spec : CollectionSpec} :
    pack.collectionIssues index spec = (spec.demands index).flatMap pack.demandIssue := by
  unfold collectionIssues CollectionSpec.demands Schema.fixedCollectionIds
  simp only [optionalIssue_eq, List.flatMap_append, List.flatMap_cons, List.flatMap_assoc,
    List.flatMap_map, List.filterMap_eq_flatMap_toList, List.append_assoc]
  congr 4
  funext entry
  congr 1
  funext node
  cases node with
  | documentRef fixed =>
      cases fixed with
      | none => rfl
      | some id =>
          by_cases h : id = selfCollection <;>
            simp [Definition.fixedCollection?, h, issueAt, demandIssue, fault?]
  | _ => rfl

theorem appIssues_eq {index : Nat} {spec : AppSpec} :
    pack.appIssues index spec = (spec.demands index).flatMap pack.demandIssue := by
  unfold appIssues AppSpec.demands
  rw [List.flatMap_map]
  rfl

/-- A visited position demands what its references are checked for. -/
theorem demands_eq_references (visit : Visit) : visit.demands =
    visit.references.map fun reference =>
      (reference.path, Demand.reference reference.expected reference.value) := by
  obtain ⟨d, path, value⟩ := visit
  cases d with
  | documentRef fixed =>
      cases value with
      | object members =>
          have htext : ∀ key, (Visit.mk (.documentRef fixed) path (.object members)).text? key =
              (members.lookup key).bind Json.string? := fun _ => rfl
          simp only [Visit.demands, Visit.references, Visit.isDocumentRef, Definition.dataType,
            referenceKeys, List.map_filterMap, htext, beq_self_eq_true, if_true]
          congr 1
          funext entry
          cases members.lookup entry.1 with
          | none => rfl
          | some found => cases found <;> rfl
      | _ => rfl
  | _ => rfl

theorem documentIssues_eq {index : Nat} {spec : PackDocumentSpec} :
    pack.documentIssues index spec = (pack.documentDemands index spec).flatMap pack.demandIssue := by
  unfold documentIssues documentDemands
  simp only [List.flatMap_cons, demandIssue_collection]
  cases pack.collectionOf? spec with
  | none => simp
  | some collection =>
      simp only [Schema.contentReferences]
      cases collection.schema.visitContent spec.content with
      | error e => rfl
      | ok visits =>
          simp only [Option.isSome_some, if_true, issueAt, Except.map, List.flatMap_assoc,
            List.flatMap_map, List.map_flatMap, demands_eq_references, demandIssue_reference]
          rfl

theorem issues_eq {maxEntities : Nat} :
    pack.issues maxEntities = (pack.demands maxEntities).flatMap pack.demandIssue := by
  have hsize : pack.sizeIssues maxEntities = pack.demandIssue ([], .size maxEntities) := rfl
  simp only [issues, demands, hsize, categoryIssues_eq, collectionIssues_eq, appIssues_eq,
    documentIssues_eq, List.cons_append, List.flatMap_cons, List.flatMap_append, List.flatMap_assoc,
    List.append_assoc]

instance (demand : Demand) : Decidable (demand.Met pack) :=
  decidable_of_iff _ fault?_eq_none_iff

theorem demandIssue_eq_nil_iff {demand : Path × Demand} :
    pack.demandIssue demand = [] ↔ demand.2.Met pack := by
  rw [← fault?_eq_none_iff, demandIssue]
  cases pack.fault? demand.2 <;> simp [issueAt]

/-- Demands are reported that are not met, each once and at its place. -/
theorem reported_demands (demands : List (Path × Demand)) :
    List.Forall₂ (fun issue demand => issue.kind = .validation ∧ issue.path = demand.1)
      (demands.flatMap pack.demandIssue) (demands.filter fun demand => ¬ demand.2.Met pack) := by
  induction demands with
  | nil => exact .nil
  | cons demand rest ih =>
      rw [List.flatMap_cons]
      by_cases hmet : demand.2.Met pack
      · rw [demandIssue_eq_nil_iff.2 hmet, List.filter_cons_of_neg (by simpa using hmet)]
        exact ih
      · rw [List.filter_cons_of_pos (by simpa using hmet)]
        have hfault : pack.fault? demand.2 ≠ none := fun h => hmet (fault?_eq_none_iff.1 h)
        obtain ⟨fault, hfault⟩ := Option.ne_none_iff_exists'.1 hfault
        have hissue : pack.demandIssue demand = [fault.issue demand.1] := by
          simp [demandIssue, hfault, issueAt]
        rw [hissue]
        exact .cons ⟨rfl, rfl⟩ ih

theorem issues_eq_nil_iff {maxEntities : Nat} :
    pack.issues maxEntities = [] ↔ ∀ demand ∈ pack.demands maxEntities, demand.2.Met pack := by
  rw [issues_eq, List.flatMap_eq_nil_iff]
  exact forall₂_congr fun demand _ => demandIssue_eq_nil_iff

end Pack

/-- The check of a pack reports the demands that are not met, in the order of the pack: one issue for
each, at its place. It reports nothing exactly where all demands are met. -/
theorem Engine.validatePack_reports (engine : Engine) (pack : Pack) :
    List.Forall₂ (fun issue demand => issue.kind = .validation ∧ issue.path = demand.1)
        (engine.validatePack pack)
        ((pack.demands engine.config.maxPackEntities).filter fun demand => ¬ demand.2.Met pack) ∧
      (engine.validatePack pack = [] ↔
        ∀ demand ∈ pack.demands engine.config.maxPackEntities, demand.2.Met pack) := by
  constructor
  · rw [validatePack, Pack.issues_eq]
    exact Pack.reported_demands _
  · exact Pack.issues_eq_nil_iff

end ContentStore

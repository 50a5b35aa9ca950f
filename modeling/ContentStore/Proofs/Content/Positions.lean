import ContentStore.Proofs.Content.Conformance

/-!
# The positions of content

A schema gives definitions to the positions of content, and the properties of its structs and the places
of its lists put these positions in an order. The walk visits the references and files among them in that
order, each once, and the check says of each what its definition says of the value there.
-/

namespace ContentStore

namespace Schema

variable {schema : Schema} {d target : Definition}

/-- The definition of the position at a path from a value, with the value there. Declared properties and
items are entered, and references are followed one declared name at a time. -/
inductive Types (schema : Schema) : Definition → Json → Path → Definition → Json → Prop
  | here {d : Definition} {value : Json} : Types schema d value [] d value
  | ref {name : String} {next d : Definition} {value leaf : Json} {path : Path}
      (declared : schema.types.get? name = some next) (below : Types schema next value path d leaf) :
      Types schema (.ref name) value path d leaf
  | member {properties : List (String × Definition)} {nullable : SortedSet String}
      {members : List (String × Json)} {key : String} {part d : Definition} {value leaf : Json}
      {path : Path} (declared : (key, part) ∈ properties) (holds : members.lookup key = some value)
      (below : Types schema part value path d leaf) :
      Types schema (.struct properties nullable) (.object members) (.name key :: path) d leaf
  | item {element d : Definition} {items : List Json} {place : Nat} {value leaf : Json} {path : Path}
      (holds : items[place]? = some value) (below : Types schema element value path d leaf) :
      Types schema (.list element) (.array items) (.index place :: path) d leaf

/-- One path comes before another: at the first step where they part, its property is declared earlier
or its place is smaller. -/
inductive Precedes (schema : Schema) : Definition → Path → Path → Prop
  | ref {name : String} {next : Definition} {path other : Path}
      (declared : schema.types.get? name = some next) (below : Precedes schema next path other) :
      Precedes schema (.ref name) path other
  | properties {properties : List (String × Definition)} {nullable : SortedSet String}
      {first second : String × Definition} {path other : Path}
      (declared : List.Sublist [first, second] properties) :
      Precedes schema (.struct properties nullable) (.name first.1 :: path) (.name second.1 :: other)
  | property {properties : List (String × Definition)} {nullable : SortedSet String} {key : String}
      {part : Definition} {path other : Path} (declared : (key, part) ∈ properties)
      (below : Precedes schema part path other) :
      Precedes schema (.struct properties nullable) (.name key :: path) (.name key :: other)
  | places {element : Definition} {place next : Nat} {path other : Path} (smaller : place < next) :
      Precedes schema (.list element) (.index place :: path) (.index next :: other)
  | place {element : Definition} {place : Nat} {path other : Path}
      (below : Precedes schema element path other) :
      Precedes schema (.list element) (.index place :: path) (.index place :: other)

/-! ### Following references step by step -/

/-- A position that is no reference has the same definition from either end of a chain of references. -/
theorem types_iff_of_follow {steps : Nat} (h : schema.follow steps d = .ok target) {value leaf : Json}
    {path : Path} {part : Definition} (hn : ∀ name, part ≠ .ref name) :
    schema.Types d value path part leaf ↔ schema.Types target value path part leaf := by
  induction steps generalizing d with
  | zero =>
      cases d with
      | ref name => cases h
      | _ =>
          cases h
          rfl
  | succ steps ih =>
      cases d with
      | ref name =>
          obtain ⟨next, hnext, hfollow⟩ := follow_ref_eq_ok_iff.1 h
          rw [← ih hfollow]
          constructor
          · intro htypes
            cases htypes with
            | here => exact absurd rfl (hn name)
            | ref declared below =>
                cases hnext.symm.trans declared
                exact below
          · exact .ref hnext
      | _ =>
          cases h
          rfl

theorem precedes_of_follow {steps : Nat} (h : schema.follow steps d = .ok target) {path other : Path}
    (hp : schema.Precedes target path other) : schema.Precedes d path other := by
  induction steps generalizing d with
  | zero =>
      cases d with
      | ref name => cases h
      | _ =>
          cases h
          exact hp
  | succ steps ih =>
      cases d with
      | ref name =>
          obtain ⟨next, hnext, hfollow⟩ := follow_ref_eq_ok_iff.1 h
          exact .ref hnext (ih hfollow)
      | _ =>
          cases h
          exact hp

/-- The positions that a walk does not look into, as the schema types them. -/
theorem types_iff_leaf (hs : schema.checkStructure = .ok ()) (hd : schema.Sound d) {value leaf : Json}
    {path : Path} {part : Definition} (hn : ∀ name, part ≠ .ref name) (ho : part.opens leaf = false) :
    schema.Types d value path part leaf ↔ schema.Leaf d value path part leaf := by
  refine soundInduction hs (motive := fun d value => ∀ path,
    schema.Types d value path part leaf ↔ schema.Leaf d value path part leaf) ?_ ?_ ?_ hd value path
  · intro d target value _ hr hclosed path
    rw [types_iff_of_follow hr hn, @leaf_iff_of_not_opens _ _ _ _ ⟨part, path, leaf⟩ hr hclosed]
    constructor
    · intro h
      cases h with
      | here => rfl
      | ref => exact absurd rfl (follow_ne_ref hr _)
      | member => cases hclosed
      | item => cases hclosed
    · intro h
      cases h
      exact .here
  · intro d element items hr ih path
    rw [types_iff_of_follow hr hn, leaf_list_iff hr]
    constructor
    · intro h
      cases h with
      | here => cases ho
      | item holds below =>
          exact ⟨_, _, _, holds, rfl, (ih _ (List.mem_of_getElem? holds) _).1 below⟩
    · rintro ⟨place, value, below, holds, rfl, hleaf⟩
      exact .item holds ((ih _ (List.mem_of_getElem? holds) _).2 hleaf)
  · intro d properties nullable members hr ih path
    rw [types_iff_of_follow hr hn, leaf_struct_iff hr]
    constructor
    · intro h
      cases h with
      | here => cases ho
      | member declared holds below =>
          exact ⟨_, _, _, _, declared, holds, rfl, (ih _ _ _ declared holds _).1 below⟩
    · rintro ⟨key, part, value, below, declared, holds, rfl, hleaf⟩
      exact .member declared holds ((ih _ _ _ declared holds _).2 hleaf)

theorem Leaf.value_ne_null {value leaf : Json} {path : Path}
    (h : schema.Leaf d value path target leaf) (hn : leaf ≠ .null) : value ≠ .null := by
  rintro rfl
  cases h
  exact hn rfl

/-! ### The order of positions -/

/-- A path does not come before itself, since the keys of properties are distinct. -/
theorem Precedes.ne {path other : Path} (h : schema.Precedes d path other) (hd : d.DistinctKeys) :
    path ≠ other := by
  induction h with
  | ref declared _ ih => exact ih (schema.distinct _ (Entries.mem_of_lookup declared))
  | @properties properties nullable first second path other declared =>
      have hkeys : (Entries.keys properties).Nodup := hd.1
      have hpair : [first.1, second.1].Sublist (Entries.keys properties) := declared.map Prod.fst
      intro he
      obtain ⟨hsame, -⟩ := List.cons.inj he
      have hdistinct := hkeys.sublist hpair
      simp [Segment.name.inj hsame] at hdistinct
  | property declared _ ih =>
      have hpart := Definition.distinctPropertyKeys_iff.1 hd.2 _ declared
      intro he
      exact ih hpart (List.cons.inj he).2
  | places smaller =>
      intro he
      obtain ⟨hsame, -⟩ := List.cons.inj he
      cases hsame
      exact Nat.lt_irrefl _ smaller
  | place _ ih =>
      intro he
      exact ih hd (List.cons.inj he).2

/-- A property has no visits, or those of its member under its key. -/
theorem eq_nil_or_of_propertyVisits {members : List (String × Json)} {property : String × Definition}
    {found : List Visit} (h : schema.propertyVisits members property = .ok found) :
    found = [] ∨ ∃ value below, members.lookup property.1 = some value ∧
      schema.visits value property.2 = .ok below ∧
      found = below.map (Visit.under (.name property.1)) := by
  unfold propertyVisits at h
  cases hl : members.lookup property.1 with
  | none =>
      simp only [hl, Except.ok.injEq] at h
      exact .inl h.symm
  | some value =>
      simp only [hl] at h
      obtain ⟨below, hbelow, rfl⟩ := map_eq_ok_iff.1 h
      exact .inr ⟨value, below, rfl, hbelow, rfl⟩

private theorem pairwise_of_not_opens {value : Json} {found : List Visit}
    (hr : schema.resolve d = .ok target) (ho : target.opens value = false) (hn : value ≠ .null)
    (h : schema.visits value d = .ok found) {r : Visit → Visit → Prop} : found.Pairwise r := by
  cases (visits_of_not_opens hr ho hn).symm.trans h
  unfold visitsHere
  split <;> simp

/-- A walk comes to the positions in their order. -/
theorem pairwise_visits {value : Json} {found : List Visit} (h : schema.visits value d = .ok found) :
    found.Pairwise fun visit other => schema.Precedes d visit.path other.path := by
  induction value using Json.treeInduction generalizing d found with
  | null =>
      cases (visits_null schema d).symm.trans h
      exact .nil
  | array items ih =>
      obtain ⟨target, hr⟩ := exists_resolve_of_visits (by simp) h
      cases ho : target.opens (.array items) with
      | false => exact pairwise_of_not_opens hr ho (by simp) h
      | true =>
          obtain ⟨element, rfl⟩ := Definition.eq_list_of_opens ho
          rw [visits_list hr] at h
          have hplaces : items.zipIdx.Pairwise fun item next => item.2 < next.2 := by
            rw [← List.pairwise_map (f := Prod.snd) (R := (· < ·)), List.zipIdx_map_snd]
            exact List.pairwise_lt_range'
          refine gather_pairwise h ?_ (hplaces.imp ?_)
          · rintro ⟨item, place⟩ hmem here hhere
            obtain ⟨below, hbelow, rfl⟩ := map_eq_ok_iff.1 hhere
            have hbefore := ih item (List.fst_mem_of_mem_zipIdx hmem) hbelow
            rw [List.pairwise_map]
            exact hbefore.imp fun hp => precedes_of_follow hr (.place hp)
          · rintro ⟨item, place⟩ ⟨other, next⟩ hlt here there hhere hthere visit hv later hl
            obtain ⟨below, -, rfl⟩ := map_eq_ok_iff.1 hhere
            obtain ⟨above, -, rfl⟩ := map_eq_ok_iff.1 hthere
            obtain ⟨visit, -, rfl⟩ := List.mem_map.1 hv
            obtain ⟨later, -, rfl⟩ := List.mem_map.1 hl
            exact precedes_of_follow hr (.places hlt)
  | object members ih =>
      obtain ⟨target, hr⟩ := exists_resolve_of_visits (by simp) h
      cases ho : target.opens (.object members) with
      | false => exact pairwise_of_not_opens hr ho (by simp) h
      | true =>
          obtain ⟨properties, nullable, rfl⟩ := Definition.eq_struct_of_opens ho
          rw [visits_struct hr] at h
          refine gather_pairwise h ?_ (List.pairwise_iff_forall_sublist.2 ?_)
          · rintro ⟨key, part⟩ hp here hhere
            obtain rfl | ⟨value, below, hl, hbelow, rfl⟩ := eq_nil_or_of_propertyVisits hhere
            · exact .nil
            · have hbefore := ih (key, value) (Entries.mem_of_lookup hl) hbelow
              rw [List.pairwise_map]
              exact hbefore.imp fun hlater => precedes_of_follow hr (.property hp hlater)
          · rintro first second hdeclared here there hhere hthere visit hv later hl
            obtain rfl | ⟨_, below, -, -, rfl⟩ := eq_nil_or_of_propertyVisits hhere
            · cases hv
            obtain rfl | ⟨_, above, -, -, rfl⟩ := eq_nil_or_of_propertyVisits hthere
            · cases hl
            obtain ⟨visit, -, rfl⟩ := List.mem_map.1 hv
            obtain ⟨later, -, rfl⟩ := List.mem_map.1 hl
            exact precedes_of_follow hr (.properties hdeclared)
  | _ =>
      obtain ⟨target, hr⟩ := exists_resolve_of_visits (by simp) h
      exact pairwise_of_not_opens hr (by cases target <;> rfl) (by simp) h

end Schema

/-! ### What the check says of a position -/

namespace Issue

def isBelow (path : Path) (issue : Issue) : Bool :=
  path.isPrefixOf issue.path

theorem filter_isBelow_under (segment : Segment) (path : Path) (issues : List Issue) :
    (issues.map (under segment)).filter (isBelow (segment :: path)) =
      (issues.filter (isBelow path)).map (under segment) := by
  rw [List.filter_map]
  congr 2
  funext issue
  simp [isBelow, under]

theorem filter_isBelow_under_of_ne {segment other : Segment} (h : other ≠ segment) (path : Path)
    (issues : List Issue) : (issues.map (under other)).filter (isBelow (segment :: path)) = [] := by
  rw [List.filter_map, List.map_eq_nil_iff, List.filter_eq_nil_iff]
  intro issue _
  simp [isBelow, under, h.symm]

theorem map_under_map_below (segment : Segment) (path : Path) (issues : List Issue) :
    (issues.map (below path)).map (under segment) = issues.map (below (segment :: path)) := by
  rw [List.map_map]
  rfl

end Issue

namespace Validator

variable {v : Validator} {schema : Schema} {d target : Definition}

theorem filter_propertyIssues_of_ne {members : List (String × Json)} {nullable : SortedSet String}
    {property : String × Definition} {issues : List Issue}
    (h : v.propertyIssues schema members nullable property = .ok issues) {key : String}
    (hne : property.1 ≠ key) (path : Path) : issues.filter (Issue.isBelow (.name key :: path)) = [] := by
  have hsegment : Segment.name property.1 ≠ .name key := fun he => hne (Segment.name.inj he)
  unfold propertyIssues at h
  split at h
  · cases h
    exact Issue.filter_isBelow_under_of_ne hsegment path [(Fault.missingKey property.1).issue []]
  · split at h
    · cases h
      rfl
    · obtain ⟨part, -, rfl⟩ := map_eq_ok_iff.1 h
      exact Issue.filter_isBelow_under_of_ne hsegment path part

theorem filter_unknownKeyIssues {declared : List String} {key : String} (h : key ∈ declared)
    (members : List (String × Json)) (path : Path) :
    (unknownKeyIssues declared members).filter (Issue.isBelow (.name key :: path)) = [] := by
  rw [List.filter_eq_nil_iff]
  intro issue hissue
  obtain ⟨member, hmember, rfl⟩ := List.mem_map.1 hissue
  have hother : member.1 ≠ key := by
    rintro rfl
    simp [h] at hmember
  simp [Issue.isBelow, Fault.issue, hother.symm]

/-- The issues at a position that is not looked into, and below it, are those of its definition at the
value there, unless that is null. -/
theorem filter_findings_of_leaf {value leaf : Json} {path : Path} {issues : List Issue}
    (hleaf : schema.Leaf d value path target leaf) (hn : leaf ≠ .null) (hd : d.DistinctKeys)
    (h : v.findings schema value d = .ok issues) :
    issues.filter (Issue.isBelow path) = (v.leafIssues target leaf).map (Issue.below path) := by
  induction hleaf generalizing issues with
  | here resolved closed =>
      cases (findings_of_not_opens resolved closed).symm.trans h
      have hall : ∀ issues : List Issue, issues.filter (Issue.isBelow []) = issues :=
        fun issues => List.filter_eq_self.2 fun issue _ => by simp [Issue.isBelow]
      rw [hall]
      exact (List.map_id' _).symm
  | @member d part target properties nullable members key value leaf path resolved declared holds below
      ih =>
      have hdistinct : (Definition.struct properties nullable).DistinctKeys :=
        Schema.distinctKeys_of_resolve hd resolved
      obtain ⟨hkeys, hparts⟩ := hdistinct
      have hpart := Definition.distinctPropertyKeys_iff.1 hparts _ declared
      have hvalue : value.isNull = false := by
        rw [← Bool.not_eq_true, Json.isNull_iff]
        exact below.value_ne_null hn
      rw [findings_struct resolved] at h
      obtain ⟨all, hall, rfl⟩ := map_eq_ok_iff.1 h
      obtain ⟨here, hhere⟩ := exists_of_gather hall (List.mem_map_of_mem declared)
      have hown := hhere
      simp only [propertyIssues, holds, hvalue, Bool.false_and, Bool.false_eq_true, if_false] at hown
      obtain ⟨found, hfound, rfl⟩ := map_eq_ok_iff.1 hown
      have hunknown := filter_unknownKeyIssues (List.mem_map_of_mem (f := Prod.fst) declared) members path
      rw [List.filter_append, Entries.keys, hunknown, List.append_nil,
        gather_filter Prod.fst hall hkeys declared hhere
          fun other _ hne there hthere => filter_propertyIssues_of_ne hthere hne path,
        Issue.filter_isBelow_under, ih hn hpart hfound, Issue.map_under_map_below]
  | @item d element target items place value leaf path resolved holds below ih =>
      have hlist : (Definition.list element).DistinctKeys := Schema.distinctKeys_of_resolve hd resolved
      have helement : element.DistinctKeys := hlist
      have hplaces : (items.zipIdx.map Prod.snd).Nodup := by
        rw [List.zipIdx_map_snd]
        exact List.nodup_range'
      have hitem := List.mk_mem_zipIdx_iff_getElem?.2 holds
      rw [findings_list resolved] at h
      obtain ⟨here, hhere⟩ := exists_of_gather h (List.mem_map_of_mem hitem)
      obtain ⟨found, hfound, rfl⟩ := map_eq_ok_iff.1 hhere
      rw [gather_filter Prod.snd h hplaces hitem hhere ?_, Issue.filter_isBelow_under,
        ih hn helement hfound, Issue.map_under_map_below]
      intro other _ hne there hthere
      obtain ⟨part, -, rfl⟩ := map_eq_ok_iff.1 hthere
      exact Issue.filter_isBelow_under_of_ne (fun he => hne (Segment.index.inj he)) path part

end Validator

/-! ### What is recorded of a position -/

/-- A visited position is recorded once: as the document that its two texts name, as a stored file or as
a new one. -/
inductive Visit.Recorded (visit : Visit) : Prop
  | reference {fixed : Option String} {members : List (String × Json)} {collectionId documentId : String}
      (defined : visit.definition = .documentRef fixed) (holds : visit.value = .object members)
      (keys : Entries.KeysAre ["collectionId", "documentId"] members)
      (collection : members.lookup "collectionId" = some (.string collectionId))
      (document : members.lookup "documentId" = some (.string documentId))
      (recorded : visit.documentReference? = some ⟨collectionId, documentId⟩)
  | stored {accept : Option (SortedMap String (List String))} {id name mimeType : String}
      (defined : visit.definition = .file accept)
      (parsed : FileValue.ofJson? visit.value = some (.stored id name mimeType))
      (recorded : visit.storedFileId? = some id)
  | new {accept : Option (SortedMap String (List String))} {name mimeType : String} {bytes : List UInt8}
      (defined : visit.definition = .file accept)
      (parsed : FileValue.ofJson? visit.value =
        some (.new name mimeType (bytes.map fun byte => Json.ofNat byte.toNat)))
      (recorded : visit.newFile? = some (name, mimeType, bytes))

namespace Visit

variable {visit : Visit}

theorem recorded_of_leafIssues {v : Validator} (hvisited : visit.definition.isVisited = true)
    (h : v.leafIssues visit.definition visit.value = []) : visit.Recorded := by
  obtain ⟨definition, path, value⟩ := visit
  cases definition with
  | documentRef fixed =>
      have hconforms : v.Conforms (Schema.ofTypes "" []) (.documentRef fixed) value :=
        Validator.documentRefIssues_eq_nil.1 h
      cases hconforms with
      | documentRef keys collection document same =>
          exact .reference rfl rfl keys collection document
            (documentReference?_eq_some_iff.2 ⟨fixed, _, rfl, rfl, collection, document⟩)
  | file accept =>
      obtain ⟨file, hfile⟩ := @Validator.exists_fileValue _ ⟨.file accept, path, value⟩ rfl h
      cases file with
      | stored id name mimeType =>
          exact .stored rfl hfile (storedFileId?_eq_some.2 ⟨rfl, name, mimeType, hfile⟩)
      | new name mimeType items =>
          obtain ⟨bytes, hbytes⟩ := FileValue.bytes?_of_ofJson? hfile
          cases FileValue.bytes?_new_eq_some_iff.1 hbytes
          exact .new rfl hfile (newFile?_eq_some.2 ⟨rfl, hfile⟩)
  | _ => cases hvisited

/-- The three ways to record a position exclude each other. -/
theorem Recorded.count (h : visit.Recorded) :
    visit.documentReference?.toList.length + visit.storedFileId?.toList.length +
      visit.newFile?.toList.length = 1 := by
  cases h with
  | reference defined _ _ _ _ recorded =>
      simp [recorded, storedFileId?, newFile?, file?, isFile, defined, Definition.dataType]
  | stored defined parsed recorded =>
      simp [recorded, documentReference?, newFile?, file?, isFile, isDocumentRef, defined, parsed,
        Definition.dataType]
  | new defined parsed recorded =>
      simp [recorded, documentReference?, storedFileId?, file?, isFile, isDocumentRef, defined, parsed,
        Definition.dataType]

theorem count_of_recorded {found : List Visit} (h : ∀ visit ∈ found, visit.Recorded) :
    (found.filterMap documentReference?).length + (found.filterMap storedFileId?).length +
      (found.filterMap newFile?).length = found.length := by
  induction found with
  | nil => rfl
  | cons first rest ih =>
      have hfirst := (h first (by simp)).count
      have hrest := ih fun visit hv => h visit (by simp [hv])
      simp only [List.filterMap_eq_flatMap_toList, List.flatMap_cons, List.length_append,
        List.length_cons] at hrest ⊢
      omega

end Visit

namespace Schema

variable {schema : Schema}

/-- A walk comes to the references and files that the schema gives to positions and that are not null. -/
theorem mem_visits_iff_types (h : schema.checkStructure = .ok ()) {root : Definition}
    (hroot : schema.root = .ok root) {content : Json} {found : List Visit}
    (hvisits : schema.visits content root = .ok found) {visit : Visit} :
    visit ∈ found ↔ visit.definition.isVisited = true ∧ visit.value ≠ .null ∧
      schema.Types root content visit.path visit.definition visit.value := by
  rw [mem_visits_iff hvisits]
  refine and_congr_right fun hvisited => and_congr_right fun _ => ?_
  rw [types_iff_leaf h (sound_of_root h hroot) _ (Definition.opens_of_isVisited hvisited _)]
  rintro name he
  simp [he, Definition.isVisited] at hvisited

/-- The walk over content visits exactly the references and files that the schema gives to positions and
that are not null, each once and in the order of positions, and the check says of each what its definition
says. Where the check finds nothing, every visit is recorded. -/
theorem visitContent_agrees (v : Validator) (h : schema.checkStructure = .ok ()) (content : Json) :
    ∃ root found issues, schema.types.get? schema.rootType = some root ∧
      schema.visitContent content = .ok found ∧ v.validate schema content = .ok issues ∧
      (∀ visit : Visit, visit ∈ found ↔ visit.definition.isVisited = true ∧ visit.value ≠ .null ∧
        schema.Types root content visit.path visit.definition visit.value) ∧
      (found.map Visit.path).Nodup ∧
      found.Pairwise (fun visit other => schema.Precedes root visit.path other.path) ∧
      (∀ visit ∈ found, issues.filter (Issue.isBelow visit.path) =
        (v.leafIssues visit.definition visit.value).map (Issue.below visit.path)) ∧
      (issues = [] → (∀ visit ∈ found, visit.Recorded) ∧
        (found.filterMap Visit.documentReference?).length +
          (found.filterMap Visit.storedFileId?).length +
          (found.filterMap Visit.newFile?).length = found.length) := by
  obtain ⟨found, hfound⟩ := exists_visitContent h content
  obtain ⟨root, hroot, hvisits⟩ := visitContent_eq_ok_iff.1 hfound
  obtain ⟨issues, hcheck⟩ := v.exists_findings h (sound_of_root h hroot) content
  have hissues : v.validate schema content = .ok issues := by
    simp [Validator.validate_eq, h, hroot, hcheck, bind, Except.bind]
  have hdistinct := distinctKeys_of_root hroot
  have hpairwise := pairwise_visits hvisits
  have hmem : ∀ visit : Visit, visit ∈ found ↔ visit.definition.isVisited = true ∧
      visit.value ≠ .null ∧ schema.Leaf root content visit.path visit.definition visit.value :=
    fun visit => mem_visits_iff hvisits
  refine ⟨root, found, issues, root_eq_ok_iff.1 hroot, hfound, hissues, fun visit => ?_, ?_, hpairwise,
    fun visit hv => ?_, ?_⟩
  · exact mem_visits_iff_types h hroot hvisits
  · exact List.pairwise_map.2 (hpairwise.imp fun hlater => hlater.ne hdistinct)
  · obtain ⟨-, hn, hleaf⟩ := (hmem visit).1 hv
    exact Validator.filter_findings_of_leaf hleaf hn hdistinct hcheck
  · rintro rfl
    have hleaves := Validator.leafIssues_of_mem_visitContent hissues hfound
    have hall : ∀ visit ∈ found, visit.Recorded := fun visit hv =>
      Visit.recorded_of_leafIssues ((hmem visit).1 hv).1 (hleaves visit hv)
    exact ⟨hall, Visit.count_of_recorded hall⟩

/-- Albums have an author and perhaps a cover, and contain albums. -/
def albums : Schema :=
  Schema.ofTypes "Album" [
    ("Album", ⟨.struct [("author", .documentRef none), ("cover", .file none),
        ("parts", .list (.ref "Album"))] (SortedSet.ofList ["cover"]), by
      simp [Definition.DistinctKeys, Definition.DistinctPropertyKeys, Entries.keys]⟩)]

def album (cover : Json) (parts : List Json) : Json :=
  .object [
    ("author", .object [("collectionId", .string "Collection_people"),
      ("documentId", .string "Document_a")]),
    ("cover", cover), ("parts", .array parts)]

/-- In an album without a cover that contains one with a cover, three positions are recorded. -/
theorem recorded_album :
    let content := album .null [album (fileReference "File_c" "cover.png" "image/png") []]
    albums.checkStructure = .ok () ∧ ∃ found, albums.visitContent content = .ok found ∧
      found.map Visit.path = [[.name "author"], [.name "parts", .index 0, .name "author"],
        [.name "parts", .index 0, .name "cover"]] ∧ ∀ visit ∈ found, visit.Recorded := by
  intro content
  have hs : albums.checkStructure = .ok () := by
    decide +kernel
  have hnone : ({ formats := .builtins } : Validator).validate albums content = .ok [] := by
    decide +kernel
  have hpaths : (albums.visitContent content).map (List.map Visit.path) =
      .ok [[.name "author"], [.name "parts", .index 0, .name "author"],
        [.name "parts", .index 0, .name "cover"]] := by
    decide +kernel
  obtain ⟨root, found, issues, -, hfound, hissues, -, -, -, -, hrecorded⟩ :=
    visitContent_agrees { formats := .builtins } hs content
  cases hnone.symm.trans hissues
  rw [hfound] at hpaths
  exact ⟨hs, found, hfound, Except.ok.inj hpaths, (hrecorded rfl).1⟩

end Schema

end ContentStore

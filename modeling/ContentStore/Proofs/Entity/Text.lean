import ContentStore.Content.Issue
import ContentStore.Entity.Json
import ContentStore.Proofs.Schema.Text

/-!
# Entities, packs and issues read back

Every record is found again in its text, whether its optional fields are written as null or left out. Ids
are checked again and pass, contents come back with their members in order, and a step of an issue's path
stays a place or a name.
-/

namespace ContentStore

open Json (Raw Record ReadsBack)
open Json.Raw (ofJson)

/-! ## Fields -/

namespace Json

variable {kind : Kind}

@[simp] theorem id?_text (id : RealId kind) : Raw.id? kind (ofJson (.string id.text)) = some id :=
  id.ofText?_text

@[simp] theorem nullable?_ofId? (id : Option (RealId kind)) :
    Raw.nullable? (Raw.id? kind) (ofJson (ofId? id)) = some id := by
  cases id with
  | none => rfl
  | some id => exact congrArg (Option.map some) (id?_text id)

@[simp] theorem list?_ids (ids : List (RealId kind)) :
    Raw.list? (Raw.id? kind) (ofJson (ofStrings (ids.map RealId.text))) = some ids := by
  have hids : ofStrings (ids.map RealId.text) = ofList (fun id => .string id.text) ids := by
    simp [ofStrings, ofList]
  rw [hids]
  exact list?_ofList fun id _ => id?_text id

@[simp] theorem texts?_ofEntries (texts : SortedMap String String) :
    Raw.texts? (ofJson (ofEntries .string texts.entries)) = some texts := by
  rw [Raw.texts?, members?_ofEntries fun entry _ => string?_ofJson entry.2, Option.map_some,
    SortedMap.ofList_entries]

@[simp] theorem int64?_ofInt64 (n : Int64) : Raw.int64? (ofJson (ofInt64 n)) = some n := by
  have hlow := n.le_toInt
  have hhigh := n.toInt_lt
  have hfits : Integer.ofInt? n.toInt = some ⟨n.toInt, by omega, by omega⟩ :=
    Integer.ofInt?_value ⟨n.toInt, by omega, by omega⟩
  rw [ofInt64, hfits]
  show (if n.toInt ≤ 9223372036854775807 then some (Int64.ofInt n.toInt) else none) = some n
  rw [if_pos (by omega), Int64.ofInt_toInt]

@[simp] theorem byte?_ofNat (byte : UInt8) : Raw.byte? (ofJson (ofNat byte.toNat)) = some byte := by
  have hlt := byte.toNat_lt
  have hfits : byte.toNat ≤ 18446744073709551615 := by omega
  rw [ofNat_eq hfits, ofJson, Raw.byte?, Number.toNat?_ofNat, Option.bind_eq_bind, Option.bind_some,
    if_pos (by omega), UInt8.ofNat_toNat]

@[simp] theorem nesting_ofString? (s : Option String) : (ofString? s).nesting = 0 := by
  cases s <;> rfl

@[simp] theorem nesting_ofInt64 (n : Int64) : (ofInt64 n).nesting = 0 := by
  unfold ofInt64
  split <;> rfl

end Json

/-! ## Entities -/

theorem CollectionCategory.readsBack (c : CollectionCategory) : ReadsBack toJson ofRaw? c := by
  rw [ReadsBack, toJson, ofRaw?, Record.ofRaw?_ofJson (by decide) (by simp)]
  simp [List.lookup_cons]

theorem CollectionSettings.readsBack (s : CollectionSettings) : ReadsBack toJson ofRaw? s := by
  rw [ReadsBack, toJson, ofRaw?, Record.ofRaw?_ofJson (by decide) (by simp)]
  simp [List.lookup_cons]

theorem VersionSettings.readsBack (s : VersionSettings) : ReadsBack toJson ofRaw? s := by
  obtain ⟨blocking, summary⟩ := s
  cases blocking <;> cases summary <;>
    simp [ReadsBack, toJson, ofRaw?, Record.ofRaw?_ofJson, Json.optional, List.lookup_cons]

theorem Collection.readsBack {c : Collection} (hn : c.toJson.nesting ≤ Json.nestingLimit) :
    ReadsBack toJson ofRaw? c := by
  have hfield : c.schema.toJson.nesting < c.toJson.nesting :=
    Json.nesting_lt_of_mem (.tail _ (.tail _ (.head _)))
  have hsettings : CollectionSettings.ofRaw? (ofJson c.settings.toJson) = some c.settings :=
    c.settings.readsBack
  have hschema : Schema.ofRaw? (ofJson c.schema.toJson) = some c.schema :=
    Schema.readsBack (by omega)
  have hversion : VersionSettings.ofRaw? (ofJson c.versionSettings.toJson) = some c.versionSettings :=
    c.versionSettings.readsBack
  rw [ReadsBack, toJson, ofRaw?, Record.ofRaw?_ofJson (by decide) (by simp)]
  simp [List.lookup_cons, hsettings, hschema, hversion]

theorem App.readsBack (a : App) : ReadsBack toJson ofRaw? a := by
  rw [ReadsBack, toJson, ofRaw?, Record.ofRaw?_ofJson (by decide) (by simp)]
  simp [List.lookup_cons]

theorem Document.readsBack {d : Document} (hc : d.content.Canonical) :
    ReadsBack toJson ofRaw? d := by
  rw [ReadsBack, toJson, ofRaw?, Record.ofRaw?_ofJson (by decide) (by simp)]
  simp [List.lookup_cons, Json.toJson?_ofJson d.content hc]

theorem DocumentSpec.readsBack {d : DocumentSpec} (hc : d.content.Canonical) :
    ReadsBack toJson ofRaw? d := by
  rw [ReadsBack, toJson, ofRaw?, Record.ofRaw?_ofJson (by decide) (by simp)]
  simp [List.lookup_cons, Json.toJson?_ofJson d.content hc]

theorem StoredFile.readsBack (f : StoredFile) : ReadsBack toJson ofRaw? f := by
  have hcontent : Raw.list? Raw.byte?
      (ofJson (Json.ofList (fun byte => Json.ofNat byte.toNat) f.content)) = some f.content :=
    Json.list?_ofList fun byte _ => Json.byte?_ofNat byte
  rw [ReadsBack, toJson, ofRaw?, Record.ofRaw?_ofJson (by decide) (by simp)]
  simp [List.lookup_cons, hcontent]

/-! ## Packs -/

theorem PackInfo.readsBack (i : PackInfo) : ReadsBack toJson ofRaw? i := by
  obtain ⟨name, description, version⟩ := i
  cases version <;>
    simp [ReadsBack, toJson, ofRaw?, Record.ofRaw?_ofJson, Json.optional, List.lookup_cons]

theorem CategorySpec.readsBack (c : CategorySpec) : ReadsBack toJson ofRaw? c := by
  rw [ReadsBack, toJson, ofRaw?, Record.ofRaw?_ofJson (by decide) (by simp)]
  simp [List.lookup_cons]

theorem SettingsSpec.readsBack (s : SettingsSpec) : ReadsBack toJson ofRaw? s := by
  rw [ReadsBack, toJson, ofRaw?, Record.ofRaw?_ofJson (by decide) (by simp)]
  simp [List.lookup_cons]

theorem CollectionSpec.readsBack {c : CollectionSpec}
    (hn : c.toJson.nesting ≤ Json.nestingLimit) : ReadsBack toJson ofRaw? c := by
  have hfield : c.schema.toJson.nesting < c.toJson.nesting :=
    Json.nesting_lt_of_mem (.tail _ (.head _))
  have hsettings : SettingsSpec.ofRaw? (ofJson c.settings.toJson) = some c.settings :=
    c.settings.readsBack
  have hschema : Schema.ofRaw? (ofJson c.schema.toJson) = some c.schema :=
    Schema.readsBack (by omega)
  have hversion : VersionSettings.ofRaw? (ofJson c.versionSettings.toJson) = some c.versionSettings :=
    c.versionSettings.readsBack
  rw [ReadsBack, toJson, ofRaw?, Record.ofRaw?_ofJson (by decide) (by simp)]
  simp [List.lookup_cons, hsettings, hschema, hversion]

theorem AppSpec.readsBack (a : AppSpec) : ReadsBack toJson ofRaw? a := by
  rw [ReadsBack, toJson, ofRaw?, Record.ofRaw?_ofJson (by decide) (by simp)]
  simp [List.lookup_cons]

theorem PackDocumentSpec.readsBack {d : PackDocumentSpec} (hc : d.content.Canonical) :
    ReadsBack toJson ofRaw? d := by
  rw [ReadsBack, toJson, ofRaw?, Record.ofRaw?_ofJson (by decide) (by simp)]
  simp [List.lookup_cons, Json.toJson?_ofJson d.content hc]

theorem Pack.readsBack {p : Pack} (hc : ∀ d ∈ p.documents, d.content.Canonical)
    (hn : p.toJson.nesting ≤ Json.nestingLimit) : ReadsBack toJson ofRaw? p := by
  have hinfo : PackInfo.ofRaw? (ofJson p.info.toJson) = some p.info := p.info.readsBack
  have hcategories : Raw.list? CategorySpec.ofRaw?
      (ofJson (Json.ofList CategorySpec.toJson p.categories)) = some p.categories :=
    Json.list?_ofList fun c _ => c.readsBack
  have hcollections : Raw.list? CollectionSpec.ofRaw?
      (ofJson (Json.ofList CollectionSpec.toJson p.collections)) = some p.collections := by
    have hfield : (Json.ofList CollectionSpec.toJson p.collections).nesting < p.toJson.nesting :=
      Json.nesting_lt_of_mem (.tail _ (.tail _ (.tail _ (.head _))))
    refine Json.list?_ofList fun c hmem => CollectionSpec.readsBack ?_
    have hitem : c.toJson.nesting < (Json.ofList CollectionSpec.toJson p.collections).nesting :=
      Json.nesting_lt_ofList CollectionSpec.toJson hmem
    omega
  have happs : Raw.list? AppSpec.ofRaw? (ofJson (Json.ofList AppSpec.toJson p.apps)) = some p.apps :=
    Json.list?_ofList fun a _ => a.readsBack
  have hdocuments : Raw.list? PackDocumentSpec.ofRaw?
      (ofJson (Json.ofList PackDocumentSpec.toJson p.documents)) = some p.documents :=
    Json.list?_ofList fun d hmem => PackDocumentSpec.readsBack (hc d hmem)
  rw [ReadsBack, toJson, ofRaw?, Record.ofRaw?_ofJson (by decide) (by simp)]
  simp [List.lookup_cons, hinfo, hcategories, hcollections, happs, hdocuments]

theorem PackInstallation.readsBack {i : PackInstallation}
    (hc : ∀ d ∈ i.documents, d.content.Canonical)
    (hn : i.toJson.nesting ≤ Json.nestingLimit) : ReadsBack toJson ofRaw? i := by
  have hcategories : Raw.list? CollectionCategory.ofRaw?
      (ofJson (Json.ofList CollectionCategory.toJson i.categories)) = some i.categories :=
    Json.list?_ofList fun c _ => c.readsBack
  have hcollections : Raw.list? Collection.ofRaw?
      (ofJson (Json.ofList Collection.toJson i.collections)) = some i.collections := by
    have hfield : (Json.ofList Collection.toJson i.collections).nesting < i.toJson.nesting :=
      Json.nesting_lt_of_mem (.tail _ (.head _))
    refine Json.list?_ofList fun c hmem => Collection.readsBack ?_
    have hitem : c.toJson.nesting < (Json.ofList Collection.toJson i.collections).nesting :=
      Json.nesting_lt_ofList Collection.toJson hmem
    omega
  have happs : Raw.list? App.ofRaw? (ofJson (Json.ofList App.toJson i.apps)) = some i.apps :=
    Json.list?_ofList fun a _ => a.readsBack
  have hdocuments : Raw.list? Document.ofRaw?
      (ofJson (Json.ofList Document.toJson i.documents)) = some i.documents :=
    Json.list?_ofList fun d hmem => Document.readsBack (hc d hmem)
  rw [ReadsBack, toJson, ofRaw?, Record.ofRaw?_ofJson (by decide) (by simp)]
  simp [List.lookup_cons, hcategories, hcollections, happs, hdocuments]

/-! ## Issues -/

theorem IssueKind.ofRaw?_name (kind : IssueKind) : ofRaw? (ofJson (.string kind.name)) = some kind := by
  cases kind <;> decide

theorem Segment.readsBack {segment : Segment}
    (h : ∀ place, segment = .index place → place ≤ 18446744073709551615) :
    ReadsBack toJson ofRaw? segment := by
  cases segment with
  | name key =>
      rw [ReadsBack, toJson, ofRaw?, Record.ofRaw?_ofJson (by decide) (by simp)]
      simp [ofJson]
  | index place =>
      have hfits := h place rfl
      rw [ReadsBack, toJson, ofRaw?, Record.ofRaw?_ofJson (by decide) (by simp)]
      simp [Json.ofNat_eq hfits, ofJson, Raw.nat?, Json.Number.toNat?_ofNat]

theorem Issue.readsBack {issue : Issue}
    (h : ∀ place, .index place ∈ issue.path → place ≤ 18446744073709551615) :
    ReadsBack toJson ofRaw? issue := by
  have hkind := issue.kind.ofRaw?_name
  have hpath : Raw.list? Segment.ofRaw? (ofJson (Json.ofList Segment.toJson issue.path)) =
      some issue.path :=
    Json.list?_ofList fun segment hmem => Segment.readsBack fun place hplace => h place (hplace ▸ hmem)
  rw [ReadsBack, toJson, ofRaw?, Record.ofRaw?_ofJson (by decide) (by simp)]
  simp [List.lookup_cons, hkind, hpath]

/-! ## Texts -/

theorem CollectionCategory.nesting_toJson_le (c : CollectionCategory) :
    c.toJson.nesting ≤ Json.nestingLimit := by
  simp [toJson, Json.nesting, Json.nestingOfMembers, Json.ofId?, Json.nestingLimit]

theorem App.nesting_toJson_le (a : App) : a.toJson.nesting ≤ Json.nestingLimit := by
  have htargets : (Json.ofStrings (a.targets.map RealId.text)).nesting ≤ 1 :=
    Json.nesting_ofList_le (fun _ => le_refl 0) _
  have hfiles : (Json.ofEntries .string a.files.entries).nesting ≤ 1 :=
    Json.nesting_ofEntries_le (fun _ => le_refl 0) _
  simp [toJson, Json.nesting, Json.nestingOfMembers, Json.nestingLimit]
  omega

theorem StoredFile.nesting_toJson_le (f : StoredFile) : f.toJson.nesting ≤ Json.nestingLimit := by
  have hcontent : (Json.ofList (fun byte : UInt8 => Json.ofNat byte.toNat) f.content).nesting ≤ 1 :=
    Json.nesting_ofList_le (fun _ => (Json.nesting_ofNat _).le) _
  simp [toJson, Json.nesting, Json.nestingOfMembers, Json.nestingLimit]
  omega

theorem Issue.nesting_toJson_le (issue : Issue) : issue.toJson.nesting ≤ Json.nestingLimit := by
  have hpath : (Json.ofList Segment.toJson issue.path).nesting ≤ 2 := by
    refine Json.nesting_ofList_le (fun segment => ?_) _
    cases segment <;> simp [Segment.toJson, Json.nesting, Json.nestingOfMembers]
  simp [toJson, Json.nesting, Json.nestingOfMembers, Json.nestingLimit]
  omega

/-- Every record is found again in its text, if the text can be read at all: contents have their members in
order, and the places of a path are machine words. -/
theorem records_ofText? :
    (∀ c : CollectionCategory,
      (Raw.ofText? c.toJson.text).bind CollectionCategory.ofRaw? = some c) ∧
    (∀ c : Collection, c.toJson.nesting ≤ Json.nestingLimit →
      (Raw.ofText? c.toJson.text).bind Collection.ofRaw? = some c) ∧
    (∀ a : App, (Raw.ofText? a.toJson.text).bind App.ofRaw? = some a) ∧
    (∀ d : Document, d.content.Canonical → d.toJson.nesting ≤ Json.nestingLimit →
      (Raw.ofText? d.toJson.text).bind Document.ofRaw? = some d) ∧
    (∀ d : DocumentSpec, d.content.Canonical → d.toJson.nesting ≤ Json.nestingLimit →
      (Raw.ofText? d.toJson.text).bind DocumentSpec.ofRaw? = some d) ∧
    (∀ f : StoredFile, (Raw.ofText? f.toJson.text).bind StoredFile.ofRaw? = some f) ∧
    (∀ p : Pack, (∀ d ∈ p.documents, d.content.Canonical) → p.toJson.nesting ≤ Json.nestingLimit →
      (Raw.ofText? p.toJson.text).bind Pack.ofRaw? = some p) ∧
    (∀ i : PackInstallation, (∀ d ∈ i.documents, d.content.Canonical) →
      i.toJson.nesting ≤ Json.nestingLimit →
        (Raw.ofText? i.toJson.text).bind PackInstallation.ofRaw? = some i) ∧
    (∀ issue : Issue, (∀ place, .index place ∈ issue.path → place ≤ 18446744073709551615) →
      (Raw.ofText? issue.toJson.text).bind Issue.ofRaw? = some issue) :=
  ⟨fun c => c.readsBack.ofText c.nesting_toJson_le,
    fun _ hn => (Collection.readsBack hn).ofText hn,
    fun a => a.readsBack.ofText a.nesting_toJson_le,
    fun _ hc hn => (Document.readsBack hc).ofText hn,
    fun _ hc hn => (DocumentSpec.readsBack hc).ofText hn,
    fun f => f.readsBack.ofText f.nesting_toJson_le,
    fun _ hc hn => (Pack.readsBack hc hn).ofText hn,
    fun _ hc hn => (PackInstallation.readsBack hc hn).ofText hn,
    fun issue h => (Issue.readsBack h).ofText issue.nesting_toJson_le⟩

/-- A collection of tapes, its pack and what was made of it are found again, and so is an issue whose path
has a name made of a digit and a place. -/
theorem records_ofText?_tapes :
    let collection : Collection := {
      id := ⟨"Collection_a", by decide⟩
      settings := { name := "Tapes", icon := "", description := "", categoryId := none,
                    defaultAppId := some ⟨"App_a", by decide⟩ }
      schema := Schema.ofTypes "Tape" [("Tape", ⟨.list (.ref "Tape"), trivial⟩)]
      versionSettings := { summaryGetter := some "title" }
      createdAt := -1 }
    let content : Json := .object [("0", .number (.float ⟨true, 0, -1074, by decide⟩)),
      ("title", .array [.null, .string "side \"A\""])]
    let document : Document := { id := ⟨"Document_a", by decide⟩, collectionId := collection.id, content,
                                 createdAt := 0 }
    let spec : DocumentSpec := { collectionId := collection.id, content }
    let pack : Pack := {
      id := "tapes", info := { version := some "1" }
      categories := [{ name := "Audio", icon := "", parentId := none }]
      collections := [{ settings := { name := "Tapes", icon := "", description := "",
                                      categoryId := none, defaultAppId := none },
                        schema := collection.schema, versionSettings := {} }]
      apps := [], documents := [{ collectionId := "Collection_a", content }] }
    let installation : PackInstallation := ⟨[], [collection], [], [document]⟩
    let issue : Issue := ⟨.schema, "unknown key", [.name "0", .index 0]⟩
    (Raw.ofText? collection.toJson.text).bind Collection.ofRaw? = some collection ∧
      (Raw.ofText? document.toJson.text).bind Document.ofRaw? = some document ∧
      (Raw.ofText? spec.toJson.text).bind DocumentSpec.ofRaw? = some spec ∧
      (Raw.ofText? pack.toJson.text).bind Pack.ofRaw? = some pack ∧
      (Raw.ofText? installation.toJson.text).bind PackInstallation.ofRaw? = some installation ∧
      (Raw.ofText? issue.toJson.text).bind Issue.ofRaw? = some issue := by
  intro collection content document spec pack installation issue
  have hcontent : content.Canonical := by
    simp only [content, Json.Canonical, Json.CanonicalMembers, Json.CanonicalItems, and_true]
    decide
  have hpack : ∀ d ∈ pack.documents, d.content.Canonical := by simpa [pack] using hcontent
  have hinstallation : ∀ d ∈ installation.documents, d.content.Canonical := by
    simpa [installation, document] using hcontent
  have hissue : ∀ place, .index place ∈ issue.path → place ≤ 18446744073709551615 := by
    simp [issue]
  obtain ⟨-, collections, -, documents, specs, -, packs, installations, issues⟩ := records_ofText?
  exact ⟨collections collection (by decide), documents document hcontent (by decide),
    specs spec hcontent (by decide), packs pack hpack (by decide),
    installations installation hinstallation (by decide), issues issue hissue⟩

end ContentStore

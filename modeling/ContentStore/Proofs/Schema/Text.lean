import ContentStore.Proofs.Json.Fields
import ContentStore.Schema.Json

/-!
# Schemas read back

A definition is found again in its text: its data type by name, its fields in declaration order, and the
definitions inside it one step deeper each. Properties and members keep their order, sets and maps theirs.
-/

namespace ContentStore

open Json (Raw Record ReadsBack)
open Json.Raw (ofJson ofMembers)

namespace Entries

variable {V : Type}

theorem put_of_not_mem {key : String} {entries : List (String × V)} (h : key ∉ keys entries)
    (value : V) : put key value entries = entries ++ [(key, value)] := by
  induction entries with
  | nil => rfl
  | cons entry rest ih =>
      obtain ⟨k, v⟩ := entry
      simp only [keys, List.map_cons, List.mem_cons, not_or] at h
      rw [put, if_neg (Ne.symm h.1), ih h.2, List.cons_append]

/-- Collecting keeps entries that have distinct keys already. -/
theorem collect_of_nodup {entries : List (String × V)} (h : (keys entries).Nodup) :
    collect entries = entries := by
  suffices ∀ done : List (String × V), (keys (done ++ entries)).Nodup →
      entries.foldl (fun found entry => put entry.1 entry.2 found) done = done ++ entries from
    this [] h
  clear h
  induction entries with
  | nil => simp
  | cons first rest ih =>
      obtain ⟨key, value⟩ := first
      intro done hdone
      have hkey : key ∉ keys done := by
        intro hk
        rw [keys, List.map_append, List.nodup_append] at hdone
        exact hdone.2.2 key hk key (by simp) rfl
      simp only [List.foldl_cons]
      rw [put_of_not_mem hkey, ih _ (by simpa using hdone)]
      simp

end Entries

@[simp] theorem OrderedMap.ofList_entries {V : Type} (m : OrderedMap V) :
    OrderedMap.ofList m.entries = m :=
  OrderedMap.ext (Entries.collect_of_nodup m.distinct)

/-- A map is read back from its written form. -/
theorem OrderedMap.readsBack {V : Type} {write : V → Json} {read : Raw → Option V} {m : OrderedMap V}
    (h : ∀ entry ∈ m.entries, ReadsBack write read entry.2) :
    ReadsBack (toJson write) (ofRaw? read) m := by
  rw [ReadsBack, toJson, ofRaw?_eq_map, Json.members?_ofEntries h, Option.map_some, ofList_entries]

@[simp] theorem SortedSet.ofList_toList (s : SortedSet String) : SortedSet.ofList s.toList = s := by
  have hentries : s.toList.map (fun value => (value, ())) = s.entries := by
    rw [SortedSet.toList, SortedMap.keys, List.map_map]
    exact List.map_id s.entries
  rw [SortedSet.ofList, hentries, SortedMap.ofList_entries]

theorem EnumValue.readsBack (value : EnumValue) :
    ReadsBack EnumValue.toJson EnumValue.ofRaw? value := by
  cases value <;> rfl

theorem EnumMember.readsBack (member : EnumMember) :
    ReadsBack EnumMember.toJson EnumMember.ofRaw? member := by
  obtain ⟨value, description⟩ := member
  have hvalue : EnumValue.ofRaw? (ofJson value.toJson) = some value := value.readsBack
  cases description <;>
    simp [ReadsBack, EnumMember.toJson, EnumMember.ofRaw?, Json.optional, Record.ofRaw?_ofJson,
      List.lookup_cons, hvalue]

namespace Definition

def fields : Definition → List (String × Json)
  | .struct properties nullable =>
      ("properties", .object (propertiesToJson properties)) :: nullableField nullable
  | .list items => [("items", items.toJson)]
  | d => d.leafFields

theorem toJson_eq (d : Definition) :
    d.toJson = .object ((tag, .string d.dataType.name) :: d.fields) := by
  cases d <;> rfl

/-- The nullable properties are left out only if there are none. -/
theorem nullableField_cases (nullable : SortedSet String) :
    (nullable.toList = [] ∧ nullableField nullable = []) ∨
      nullableField nullable = [("nullableProperties", Json.ofStrings nullable.toList)] := by
  unfold nullableField
  split
  · next h =>
      refine .inl ⟨?_, rfl⟩
      rw [SortedSet.toList, SortedMap.keys, List.isEmpty_iff.1 h]
      rfl
  · exact .inr rfl

theorem nesting_lt_toJson {d : Definition} {field : String × Json} (h : field ∈ d.fields) :
    field.2.nesting < d.toJson.nesting := by
  rw [toJson_eq]
  exact Json.nesting_lt_of_mem (List.mem_cons_of_mem _ h)

theorem keys_fields (d : Definition) : (d.fields.map Prod.fst).Sublist (fieldNames d.dataType) := by
  cases d with
  | struct properties nullable =>
      rcases nullableField_cases nullable with ⟨-, h⟩ | h <;> simp [fields, h, fieldNames, dataType]
  | string value | number value | documentRef value | file value | jsonObject value =>
      cases value <;> simp [fields, leafFields, Json.optional, fieldNames, dataType]
  | _ => simp [fields, leafFields, fieldNames, dataType]

theorem nodup_fieldNames (dataType : DataType) : (fieldNames dataType).Nodup := by
  cases dataType <;> decide

theorem tag_not_mem_fieldNames (dataType : DataType) : tag ∉ fieldNames dataType := by
  cases dataType <;> decide

/-- The data type is told from the other fields by its name. -/
theorem tagged?_toJson (inner : Bool) (d : Definition) :
    tagged? inner (ofJson d.toJson) = some (d.dataType, ofJson (.object d.fields)) := by
  have hfields : ∀ field ∈ ofMembers d.fields, field.1 ≠ tag := by
    intro field hf htag
    refine tag_not_mem_fieldNames d.dataType ((keys_fields d).subset ?_)
    rw [← Json.map_fst_ofMembers, ← htag]
    exact List.mem_map_of_mem hf
  have hnone : (ofMembers d.fields).filter (fun field => field.1 == tag) = [] :=
    List.filter_eq_nil_iff.2 fun field hf => by simpa using hfields field hf
  have hall : (ofMembers d.fields).filter (fun field => field.1 != tag) = ofMembers d.fields :=
    List.filter_eq_self.2 fun field hf => by simpa using hfields field hf
  rw [toJson_eq, ofJson, ofMembers, tagged?]
  rw [List.filter_cons_of_pos (by simp), hnone, List.filter_cons_of_neg (by simp), hall]
  simp [ofJson, dataType?, DataType.ofName?_name]

theorem accept?_ofEntries (accept : SortedMap String (List String)) :
    accept? (ofJson (Json.ofEntries Json.ofStrings accept.entries)) = some accept := by
  rw [accept?, Json.members?_ofEntries fun entry _ => Json.list?_ofStrings entry.2, Option.map_some,
    SortedMap.ofList_entries]

theorem object_propertiesToJson (properties : List (String × Definition)) :
    .object (propertiesToJson properties) = Json.ofEntries toJson properties := by
  have hmap : propertiesToJson properties = properties.map fun entry => (entry.1, entry.2.toJson) := by
    induction properties with
    | nil => rfl
    | cons entry rest ih => rw [propertiesToJson, ih, List.map_cons]
  rw [hmap, Json.ofEntries]

/-- A definition is read back with as many steps as its written form is nested. -/
theorem read?_toJson {depth : Nat} {inner : Bool} {d : Definition} (hd : d.DistinctKeys)
    (hn : d.toJson.nesting ≤ depth) : read? depth inner (ofJson d.toJson) = some d := by
  induction depth generalizing inner d with
  | zero =>
      rw [toJson_eq, Json.nesting] at hn
      omega
  | succ depth ih =>
      simp only [read?, tagged?_toJson, Option.bind_eq_bind, Option.bind_some,
        Record.ofRaw?_ofJson (nodup_fieldNames _) (keys_fields d)]
      cases d with
      | struct properties nullable =>
          have hkeys : (Entries.keys properties).Nodup ∧ DistinctPropertyKeys properties := hd
          have hproperties : OrderedMap.ofRaw? (read? depth true)
              (ofJson (.object (propertiesToJson properties))) = some ⟨properties, hkeys.1⟩ := by
            have hfield : (Json.ofEntries toJson properties).nesting <
                (Definition.struct properties nullable).toJson.nesting := by
              rw [← object_propertiesToJson]
              exact nesting_lt_toJson (d := .struct properties nullable) (List.mem_cons_self ..)
            rw [object_propertiesToJson]
            refine @OrderedMap.readsBack _ toJson _ ⟨properties, hkeys.1⟩ fun entry he => ih ?_ ?_
            · exact distinctPropertyKeys_iff.1 hkeys.2 entry he
            · have hentry : entry.2.toJson.nesting < (Json.ofEntries toJson properties).nesting :=
                Json.nesting_lt_ofEntries toJson he
              omega
          rcases nullableField_cases nullable with ⟨hnone, hfield⟩ | hfield
          · have hempty := SortedSet.ofList_toList nullable
            rw [hnone] at hempty
            simp [fields, hfield, dataType, hproperties, hempty, List.lookup_cons]
          · simp [fields, hfield, dataType, hproperties, List.lookup_cons]
      | list items =>
          have hfield : items.toJson.nesting < (Definition.list items).toJson.nesting :=
            nesting_lt_toJson (d := .list items) (List.mem_cons_self ..)
          have hitems : read? depth true (ofJson items.toJson) = some items := ih hd (by omega)
          simp [fields, dataType, hitems]
      | enum members =>
          have hmembers : OrderedMap.ofRaw? EnumMember.ofRaw?
              (ofJson (members.toJson EnumMember.toJson)) = some members :=
            OrderedMap.readsBack fun entry _ => entry.2.readsBack
          simp [fields, leafFields, dataType, hmembers]
      | file accept =>
          cases accept with
          | none => simp [fields, leafFields, Json.optional, dataType]
          | some accept =>
              have haccept : Raw.nullable? accept?
                  (ofJson (Json.ofEntries Json.ofStrings accept.entries)) = some (some accept) :=
                congrArg (Option.map some) (accept?_ofEntries accept)
              simp [fields, leafFields, Json.optional, dataType, haccept]
      | string value | number value | documentRef value | jsonObject value =>
          cases value <;> simp [fields, leafFields, Json.optional, dataType]
      | _ => simp [fields, leafFields, dataType]

theorem readsBack {d : Definition} (hd : d.DistinctKeys) (hn : d.toJson.nesting ≤ Json.nestingLimit) :
    ReadsBack toJson ofRaw? d := by
  rw [ReadsBack, ofRaw?, Json.sound_ofJson, if_pos rfl, read?_toJson hd hn]

/-- A definition known to have distinct keys is read back with that knowledge. -/
theorem declared_readsBack {d : { d : Definition // d.DistinctKeys }}
    (hn : d.val.toJson.nesting ≤ Json.nestingLimit) :
    ReadsBack (fun d => toJson d.val) declared? d := by
  have hval : (declared? (ofJson d.val.toJson)).map Subtype.val = some d.val := by
    rw [← readsBack d.property hn]
    simp [declared?, Function.comp_def]
  obtain ⟨read, hread, heq⟩ := Option.map_eq_some_iff.1 hval
  rw [ReadsBack, hread, Subtype.ext heq]

end Definition

namespace Schema

theorem readsBack {schema : Schema} (hn : schema.toJson.nesting ≤ Json.nestingLimit) :
    ReadsBack toJson ofRaw? schema := by
  let declared : List (String × { d : Definition // d.DistinctKeys }) :=
    schema.types.entries.attach.map fun entry =>
      (entry.val.1, ⟨entry.val.2, schema.distinct entry.val entry.property⟩)
  have hdeclared : declared.map (fun entry => (entry.1, entry.2.val)) = schema.types.entries := by
    exact List.map_map.trans (List.attach_map_subtype_val schema.types.entries)
  have hentries : Json.ofEntries Definition.toJson schema.types.entries =
      Json.ofEntries (fun d => Definition.toJson d.val) declared := by
    rw [Json.ofEntries, ← hdeclared, List.map_map]
    rfl
  have htypes : Raw.members? Definition.declared?
      (ofJson (Json.ofEntries Definition.toJson schema.types.entries)) = some declared := by
    rw [hentries]
    refine Json.members?_ofEntries fun entry he => Definition.declared_readsBack ?_
    have hentry : entry.2.val.toJson.nesting <
        (Json.ofEntries Definition.toJson schema.types.entries).nesting := by
      rw [hentries]
      exact Json.nesting_lt_ofEntries (fun d => Definition.toJson d.val) he
    have hfield : (Json.ofEntries Definition.toJson schema.types.entries).nesting <
        schema.toJson.nesting :=
      Json.nesting_lt_of_mem (List.mem_cons_self ..)
    omega
  have hnames : ["types", "rootType"].Nodup := by decide
  rw [ReadsBack, toJson, ofRaw?, Record.ofRaw?_ofJson hnames (by simp)]
  simp [htypes, List.lookup_cons, ofTypes, hdeclared]

/-- Every definition and every schema is found again in its text, if the text can be read at all. -/
theorem ofText?_toJson :
    (∀ d : Definition, d.DistinctKeys → d.toJson.nesting ≤ Json.nestingLimit →
      (Raw.ofText? d.toJson.text).bind Definition.ofRaw? = some d) ∧
    (∀ schema : Schema, schema.toJson.nesting ≤ Json.nestingLimit →
      (Raw.ofText? schema.toJson.text).bind Schema.ofRaw? = some schema) :=
  ⟨fun _ hd hn => (Definition.readsBack hd hn).ofText hn, fun _ hn => (readsBack hn).ofText hn⟩

/-- The definition of a tape: its properties are not in the order of their names. -/
def tape : Definition :=
  .struct [("title", .string (some "line")),
    ("length", .enum ⟨[("short", { value := .string "C46" }),
      ("long", { value := .number ⟨false, 6755399441055744, -46, by decide⟩,
                 description := some "minutes" })], by decide⟩),
    ("cover", .file (some ⟨[("image/png", ["png"])], by decide⟩)),
    ("sides", .list (.ref "Side"))] ⟨[("cover", ())], by decide⟩

/-- A tape's definition and a schema with it are found again. -/
theorem ofText?_toJson_tape :
    let schema := Schema.ofTypes "Tape" [("Tape", ⟨tape, by
      simp [tape, Definition.DistinctKeys, Definition.DistinctPropertyKeys, Entries.keys]⟩),
      ("Side", ⟨.struct [] SortedMap.empty, by
        simp [Definition.DistinctKeys, Definition.DistinctPropertyKeys, Entries.keys]⟩)]
    (Raw.ofText? tape.toJson.text).bind Definition.ofRaw? = some tape ∧
      (Raw.ofText? schema.toJson.text).bind Schema.ofRaw? = some schema := by
  intro schema
  have htape : tape.DistinctKeys := by
    simp [tape, Definition.DistinctKeys, Definition.DistinctPropertyKeys, Entries.keys]
  exact ⟨ofText?_toJson.1 tape htape (by decide), ofText?_toJson.2 schema (by decide +kernel)⟩

end Schema

end ContentStore

import ContentStore.Content.FileValue
import ContentStore.Proofs.Values

/-!
# Reading files

A value stands for a file if it has exactly the keys of a stored file or of a new one. The list of a new
file is kept as it stands, and its bytes are read later; of a list that was accepted they can be read.
-/

namespace ContentStore

/-- The keys of an object are exactly the given ones. -/
def Entries.KeysAre (expected : List String) (members : List (String × Json)) : Prop :=
  ∀ key, key ∈ Entries.keys members ↔ key ∈ expected

/-- A natural number below 256. -/
def Json.IsByte (value : Json) : Prop :=
  ∃ n, n < 256 ∧ value = Json.ofNat n

/-- The value stands for a file of this name and media type: one that is stored, or a new one. -/
inductive Json.HoldsFile (name mimeType : String) : Json → Prop
  | stored {members : List (String × Json)} {id : String}
      (keys : Entries.KeysAre ["id", "name", "mimeType"] members)
      (identified : members.lookup "id" = some (.string id))
      (named : members.lookup "name" = some (.string name))
      (typed : members.lookup "mimeType" = some (.string mimeType)) :
      HoldsFile name mimeType (.object members)
  | new {members : List (String × Json)} {items : List Json}
      (keys : Entries.KeysAre ["name", "mimeType", "content"] members)
      (named : members.lookup "name" = some (.string name))
      (typed : members.lookup "mimeType" = some (.string mimeType))
      (content : members.lookup "content" = some (.array items))
      (bytes : ∀ item ∈ items, item.IsByte) :
      HoldsFile name mimeType (.object members)

/-- How a file is written as a value. The list of a new file holds bytes only. -/
inductive FileValue.WrittenAs : FileValue → Json → Prop
  | stored {members : List (String × Json)} {id name mimeType : String}
      (keys : Entries.KeysAre ["id", "name", "mimeType"] members)
      (identified : members.lookup "id" = some (.string id))
      (named : members.lookup "name" = some (.string name))
      (typed : members.lookup "mimeType" = some (.string mimeType)) :
      WrittenAs (.stored id name mimeType) (.object members)
  | new {members : List (String × Json)} {name mimeType : String} {items : List Json}
      (keys : Entries.KeysAre ["name", "mimeType", "content"] members)
      (named : members.lookup "name" = some (.string name))
      (typed : members.lookup "mimeType" = some (.string mimeType))
      (content : members.lookup "content" = some (.array items))
      (bytes : ∀ item ∈ items, item.IsByte) :
      WrittenAs (.new name mimeType items) (.object members)

theorem Entries.keysAre_iff {expected : List String} {members : List (String × Json)} :
    KeysAre expected members ↔
      (∀ key ∈ keys members, key ∈ expected) ∧ ∀ key ∈ expected, ∃ value, members.lookup key = some value := by
  have hpresent : ∀ key, key ∈ keys members ↔ ∃ value, members.lookup key = some value := by
    intro key
    rw [← Option.isSome_iff_exists, lookup_isSome_iff]
  simp only [KeysAre, ← hpresent]
  constructor
  · intro h
    exact ⟨fun key => (h key).1, fun key => (h key).2⟩
  · intro h key
    exact ⟨h.1 key, h.2 key⟩

theorem Entries.KeysAre.lookup_eq_none {expected : List String} {members : List (String × Json)}
    (h : KeysAre expected members) {key : String} (hn : key ∉ expected) :
    members.lookup key = none := by
  by_contra hsome
  have hmem := lookup_isSome_iff.1 (Option.isSome_iff_ne_none.2 hsome)
  exact hn ((h key).1 hmem)

namespace Json

theorem number_eq_of_toNat? {n : Number} {value : Nat} (h : n.toNat? = some value) :
    Json.number n = Json.ofNat value := by
  cases n with
  | int i =>
      by_cases hi : 0 ≤ i.value
      · have hvalue : i.value.toNat = value := by simpa [Number.toNat?, hi] using h
        have hcast : (value : Int) = i.value := by omega
        rw [Json.ofNat, hcast, Integer.ofInt?_value]
      · simp [Number.toNat?, hi] at h
  | float x => cases h

theorem isByte_iff {value : Json} : value.IsByte ↔ ∃ byte : UInt8, value = Json.ofNat byte.toNat := by
  constructor
  · intro h
    obtain ⟨n, hlt, rfl⟩ := h
    exact ⟨UInt8.ofNat n, by rw [UInt8.toNat_ofNat_of_lt' hlt]⟩
  · intro h
    obtain ⟨byte, rfl⟩ := h
    exact ⟨byte.toNat, byte.toNat_lt, rfl⟩

end Json

namespace FileValue

theorem onlyKeys_eq_true_iff {allowed : List String} {members : List (String × Json)} :
    onlyKeys allowed members = true ↔ ∀ key ∈ Entries.keys members, key ∈ allowed := by
  simp [onlyKeys, Entries.keys]

theorem byte?_eq_some_iff {value : Json} {byte : UInt8} :
    byte? value = some byte ↔ value = Json.ofNat byte.toNat := by
  constructor
  · intro h
    cases value with
    | number n =>
        obtain ⟨found, hfound, hbyte⟩ := Option.bind_eq_some_iff.1 h
        split at hbyte
        · next hlt =>
            have hsame : (UInt8.ofNat found).toNat = found := UInt8.toNat_ofNat_of_lt' hlt
            rw [Json.number_eq_of_toNat? hfound, ← Option.some.inj hbyte, hsame]
        · cases hbyte
    | _ => cases h
  · rintro rfl
    have hlt : byte.toNat < 256 := byte.toNat_lt
    rw [Json.ofNat_eq (by omega)]
    simp [byte?, Json.Number.toNat?, Json.Integer.ofNat, hlt]

theorem mapM_byte?_eq_some_iff {items : List Json} {bytes : List UInt8} :
    items.mapM byte? = some bytes ↔ items = bytes.map fun byte => Json.ofNat byte.toNat := by
  induction items generalizing bytes with
  | nil => cases bytes <;> simp
  | cons item rest ih =>
      rw [List.mapM_cons]
      cases bytes with
      | nil => simp [Option.bind_eq_some_iff]
      | cons byte bytes => simp [Option.bind_eq_some_iff, byte?_eq_some_iff, ih]

theorem exists_bytes {items : List Json} (h : ∀ item ∈ items, item.IsByte) :
    ∃ bytes : List UInt8, items = bytes.map fun byte => Json.ofNat byte.toNat := by
  induction items with
  | nil => exact ⟨[], rfl⟩
  | cons item rest ih =>
      obtain ⟨hitem, hrest⟩ := List.forall_mem_cons.1 h
      obtain ⟨byte, rfl⟩ := Json.isByte_iff.1 hitem
      obtain ⟨bytes, rfl⟩ := ih hrest
      exact ⟨byte :: bytes, rfl⟩

theorem isByte_iff {value : Json} : isByte value = true ↔ value.IsByte := by
  rw [Json.isByte_iff]
  simp only [← byte?_eq_some_iff]
  cases value with
  | number n =>
      cases hn : n.toNat? with
      | none => simp [isByte, byte?, hn]
      | some found =>
          by_cases hlt : found < 256
          · have hle : found ≤ 255 := by omega
            simp [isByte, byte?, hn, hlt, hle]
          · have hle : ¬ found ≤ 255 := by omega
            simp [isByte, byte?, hn, hlt, hle]
  | _ => simp [isByte, byte?]

/-- A value stands for a file exactly if the file is written as this value. -/
theorem ofJson?_eq_some_iff {value : Json} {file : FileValue} :
    ofJson? value = some file ↔ file.WrittenAs value := by
  constructor
  · intro h
    cases value with
    | object members =>
        simp only [ofJson?, bind, Option.bind_eq_some_iff] at h
        obtain ⟨name, ⟨nameValue, hname, hn⟩, mimeType, ⟨mimeValue, hmime, hm⟩, h⟩ := h
        cases nameValue <;> cases hn
        cases mimeValue <;> cases hm
        split at h
        · next id hid hcontent =>
            split at h
            · next honly =>
                obtain ⟨text, ht, rfl⟩ := Option.map_eq_some_iff.1 h
                cases id <;> cases ht
                have keys := Entries.keysAre_iff.2 ⟨onlyKeys_eq_true_iff.1 honly, by
                  simp [hid, hname, hmime]⟩
                exact .stored keys hid hname hmime
            · cases h
        · next items hid hcontent =>
            split at h
            · next hholds =>
                cases h
                rw [Bool.and_eq_true, onlyKeys_eq_true_iff, List.all_eq_true] at hholds
                have keys := Entries.keysAre_iff.2 ⟨hholds.1, by simp [hcontent, hname, hmime]⟩
                have hbytes : ∀ item ∈ items, item.IsByte := fun item hitem =>
                  isByte_iff.1 (hholds.2 item hitem)
                exact .new keys hname hmime hcontent hbytes
            · cases h
        · cases h
    | _ => cases h
  · intro h
    cases h with
    | @stored members id name mimeType keys identified named typed =>
        obtain ⟨honly, -⟩ := Entries.keysAre_iff.1 keys
        have hno : members.lookup "content" = none := keys.lookup_eq_none (by decide)
        simp [ofJson?, identified, named, typed, hno, onlyKeys_eq_true_iff.2 honly, Json.string?]
    | @new members name mimeType items keys named typed content bytes =>
        obtain ⟨honly, -⟩ := Entries.keysAre_iff.1 keys
        have hno : members.lookup "id" = none := keys.lookup_eq_none (by decide)
        have hall : items.all isByte = true :=
          List.all_eq_true.2 fun item hitem => isByte_iff.2 (bytes item hitem)
        simp only [ofJson?, content, named, typed, hno, onlyKeys_eq_true_iff.2 honly, hall,
          Json.string?, bind, Option.bind_some, Bool.and_self, if_true]

theorem bytes?_new_eq_some_iff {name mimeType : String} {items : List Json} {bytes : List UInt8} :
    (new name mimeType items).bytes? = some bytes ↔
      items = bytes.map fun byte => Json.ofNat byte.toNat :=
  mapM_byte?_eq_some_iff

/-- The bytes of a new file that a value stands for can always be read. -/
theorem bytes?_of_ofJson? {value : Json} {name mimeType : String} {items : List Json}
    (h : ofJson? value = some (.new name mimeType items)) :
    ∃ bytes, (new name mimeType items).bytes? = some bytes := by
  cases ofJson?_eq_some_iff.1 h with
  | new keys named typed content bytes =>
      obtain ⟨found, rfl⟩ := exists_bytes bytes
      exact ⟨found, bytes?_new_eq_some_iff.2 rfl⟩

theorem ofJson?_iff {value : Json} {name mimeType : String} :
    (∃ file, ofJson? value = some file ∧ file.name = name ∧ file.mimeType = mimeType) ↔
      value.HoldsFile name mimeType := by
  simp only [ofJson?_eq_some_iff]
  constructor
  · intro h
    obtain ⟨file, hwritten, rfl, rfl⟩ := h
    cases hwritten with
    | stored keys identified named typed => exact .stored keys identified named typed
    | new keys named typed content bytes => exact .new keys named typed content bytes
  · intro h
    cases h with
    | @stored _ id keys identified named typed =>
        exact ⟨.stored id name mimeType, .stored keys identified named typed, rfl, rfl⟩
    | @new _ items keys named typed content bytes =>
        exact ⟨.new name mimeType items, .new keys named typed content bytes, rfl, rfl⟩

end FileValue

end ContentStore

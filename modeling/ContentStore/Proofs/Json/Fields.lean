import ContentStore.Json.Build
import ContentStore.Json.Record
import ContentStore.Proofs.Json.ValueText

/-!
# Records read back

A record is written as an object with its fields in declaration order, optional ones left out. Reading it
finds every field under its name, and what is read from a field is what was written there.
-/

namespace ContentStore.Json

open Raw (ofJson ofItems ofMembers)

/-- A value is read back from its written form. -/
def ReadsBack {α : Type} (write : α → Json) (read : Raw → Option α) (value : α) : Prop :=
  read (ofJson (write value)) = some value

section

variable {α : Type} {write : α → Json} {read : Raw → Option α}

/-- What is read back from its written form is read back from its text, if the text can be read at all. -/
theorem ReadsBack.ofText {value : α} (h : ReadsBack write read value)
    (hn : (write value).nesting ≤ nestingLimit) :
    (Raw.ofText? (write value).text).bind read = some value := by
  rw [ofText?_text hn]
  exact h

theorem list?_ofList {values : List α} (h : ∀ value ∈ values, ReadsBack write read value) :
    Raw.list? read (ofJson (ofList write values)) = some values := by
  show (ofItems (values.map write)).mapM read = some values
  induction values with
  | nil => rfl
  | cons value rest ih =>
      have hvalue : read (ofJson (write value)) = some value := h value (by simp)
      rw [List.map_cons, ofItems, List.mapM_cons, hvalue, ih fun other ho => h other (by simp [ho])]
      rfl

theorem members?_ofEntries {entries : List (String × α)}
    (h : ∀ entry ∈ entries, ReadsBack write read entry.2) :
    Raw.members? read (ofJson (ofEntries write entries)) = some entries := by
  show (ofMembers (entries.map fun entry => (entry.1, write entry.2))).mapM
    (fun field => (read field.2).map (field.1, ·)) = some entries
  induction entries with
  | nil => rfl
  | cons entry rest ih =>
      obtain ⟨key, value⟩ := entry
      have hvalue : read (ofJson (write value)) = some value := h (key, value) (by simp)
      rw [List.map_cons, ofMembers, List.mapM_cons, ih fun other ho => h other (by simp [ho])]
      dsimp only
      rw [hvalue]
      rfl

end

/-! ## Nesting -/

@[simp] theorem nesting_ofNat (n : Nat) : (ofNat n).nesting = 0 := by
  unfold ofNat
  split <;> rfl

theorem nesting_lt_of_mem {name : String} {field : Json} {members : List (String × Json)}
    (h : (name, field) ∈ members) : field.nesting < (Json.object members).nesting := by
  rw [nesting]
  exact Nat.lt_succ_of_le (nestingOfMembers_le_iff.1 (le_refl _) (name, field) h)

section

variable {α : Type} (write : α → Json)

theorem nesting_lt_ofList {value : α} {values : List α} (h : value ∈ values) :
    (write value).nesting < (ofList write values).nesting := by
  rw [ofList, nesting]
  exact Nat.lt_succ_of_le (nestingOfItems_le_iff.1 (le_refl _) _ (List.mem_map_of_mem h))

theorem nesting_lt_ofEntries {entry : String × α} {entries : List (String × α)}
    (h : entry ∈ entries) : (write entry.2).nesting < (ofEntries write entries).nesting :=
  nesting_lt_of_mem (List.mem_map_of_mem (f := fun entry => (entry.1, write entry.2)) h)

variable {write}

theorem nesting_ofList_le {bound : Nat} (h : ∀ value, (write value).nesting ≤ bound)
    (values : List α) : (ofList write values).nesting ≤ bound + 1 := by
  rw [ofList, nesting]
  exact Nat.succ_le_succ (nestingOfItems_le_iff.2 (List.forall_mem_map.2 fun value _ => h value))

theorem nesting_ofEntries_le {bound : Nat} (h : ∀ value, (write value).nesting ≤ bound)
    (entries : List (String × α)) : (ofEntries write entries).nesting ≤ bound + 1 := by
  rw [ofEntries, nesting]
  exact Nat.succ_le_succ
    (nestingOfMembers_le_iff.2 (List.forall_mem_map.2 fun entry _ => h entry.2))

end

/-! ## Fields -/

theorem lookup_ofMembers (members : List (String × Json)) (name : String) :
    (ofMembers members).lookup name = (members.lookup name).map ofJson := by
  induction members with
  | nil => rfl
  | cons member rest ih =>
      obtain ⟨key, value⟩ := member
      rw [ofMembers, List.lookup_cons, List.lookup_cons]
      split
      · rfl
      · exact ih

@[simp] theorem map_fst_ofMembers (members : List (String × Json)) :
    (ofMembers members).map Prod.fst = members.map Prod.fst := by
  induction members with
  | nil => rfl
  | cons member rest ih => rw [ofMembers, List.map_cons, ih, List.map_cons]

namespace Record

def written (members : List (String × Json)) : Record :=
  ⟨ofMembers members, false⟩

/-- Written members with the names of fields, in their order, are the fields of the record. -/
theorem ofRaw?_ofJson {names : List String} {members : List (String × Json)} (hnames : names.Nodup)
    (h : (members.map Prod.fst).Sublist names) :
    Record.ofRaw? names (ofJson (.object members)) = some (written members) := by
  show (if _ then _ else _) = _
  rw [List.filter_eq_self.2, map_fst_ofMembers, if_pos (h.nodup hnames)]
  · rfl
  · intro field hf
    have hkey : field.1 ∈ members.map Prod.fst := by
      rw [← map_fst_ofMembers]
      exact List.mem_map_of_mem hf
    simpa using h.subset hkey

section

variable {α : Type} (members : List (String × Json)) (name : String) (read : Raw → Option α)

@[simp] theorem required?_written : (written members).required? name read =
    (members.lookup name).bind fun field => read (ofJson field) := by
  rw [required?, get?, written, lookup_ofMembers, Option.bind_map]
  rfl

@[simp] theorem withDefault?_written (default : α) : (written members).withDefault? name default read =
    match members.lookup name with
    | none => some default
    | some field => read (ofJson field) := by
  rw [withDefault?, get?, written, lookup_ofMembers]
  cases members.lookup name <;> rfl

@[simp] theorem optional?_written : (written members).optional? name read =
    match members.lookup name with
    | none => some none
    | some field => Raw.nullable? read (ofJson field) :=
  withDefault?_written members name (Raw.nullable? read) none

@[simp] theorem nullable?_written : (written members).nullable? name read =
    match members.lookup name with
    | none => some none
    | some field => Raw.nullable? read (ofJson field) :=
  optional?_written members name read

end

end Record

/-! ## Values of fields -/

@[simp] theorem string?_ofJson (s : String) : Raw.string? (ofJson (.string s)) = some s := rfl

@[simp] theorem bool?_ofJson (b : Bool) : Raw.bool? (ofJson (.bool b)) = some b := rfl

@[simp] theorem double?_ofJson (x : Double) : Raw.double? (ofJson (.number (.float x))) = some x := rfl

theorem nat?_ofNat {n : Nat} (h : n ≤ 18446744073709551615) :
    Raw.nat? (ofJson (ofNat n)) = some n := by
  rw [ofNat_eq h, ofJson, Raw.nat?, Number.toNat?_ofNat]

@[simp] theorem nullable?_ofString? (s : Option String) :
    Raw.nullable? Raw.string? (ofJson (ofString? s)) = some s := by
  cases s <;> rfl

@[simp] theorem nullable?_string (s : String) :
    Raw.nullable? Raw.string? (ofJson (.string s)) = some (some s) := rfl

@[simp] theorem list?_ofStrings (texts : List String) :
    Raw.list? Raw.string? (ofJson (ofStrings texts)) = some texts :=
  list?_ofList fun _ _ => rfl

end ContentStore.Json

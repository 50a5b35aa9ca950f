import ContentStore.Json.Raw

/-!
# Reading records and plain values

A record with named fields is written as an object or as an array of its fields in declaration order.
In an object unknown members are skipped and a repeated field is refused; an array may be short but not
long. A field is required, nullable, or has a default; null stands for a nullable field alone.
-/

namespace ContentStore.Json

namespace Raw

def string? : Raw → Option String
  | .string s => some s
  | _ => none

def bool? : Raw → Option Bool
  | .bool b => some b
  | _ => none

def double? : Raw → Option Double
  | .number n => n.toDouble?
  | _ => none

def nat? : Raw → Option Nat
  | .number n => n.toNat?
  | _ => none

def int64? : Raw → Option Int64
  | .number (.int n) => if n.value ≤ 9223372036854775807 then some (Int64.ofInt n.value) else none
  | _ => none

def byte? : Raw → Option UInt8
  | .number n => do
      let value ← n.toNat?
      if value < 256 then some (UInt8.ofNat value) else none
  | _ => none

def list? {α : Type} (read : Raw → Option α) : Raw → Option (List α)
  | .array items => items.mapM read
  | _ => none

def members? {α : Type} (read : Raw → Option α) : Raw → Option (List (String × α))
  | .object members => members.mapM fun (key, value) => (read value).map (key, ·)
  | _ => none

private theorem exists_of_mem_mapM {α β : Type} {f : α → Option β} {as : List α} {bs : List β}
    (h : as.mapM f = some bs) {b : β} (hb : b ∈ bs) : ∃ a ∈ as, f a = some b := by
  induction as generalizing bs with
  | nil =>
      cases h
      cases hb
  | cons a as ih =>
      simp only [List.mapM_cons, bind, pure, Option.bind_eq_some_iff, Option.some.injEq] at h
      obtain ⟨first, hf, rest, hr, rfl⟩ := h
      rcases List.mem_cons.1 hb with rfl | hb
      · exact ⟨a, by simp, hf⟩
      · obtain ⟨a', ha, hf'⟩ := ih hr hb
        exact ⟨a', by simp [ha], hf'⟩

/-- What is read from the members of an object is read from the value of one of them. -/
theorem exists_of_mem_members? {α : Type} {read : Raw → Option α} {raw : Raw}
    {pairs : List (String × α)} (h : members? read raw = some pairs) {entry : String × α}
    (he : entry ∈ pairs) : ∃ value, read value = some entry.2 := by
  unfold members? at h
  split at h
  · obtain ⟨⟨key, value⟩, -, hv⟩ := exists_of_mem_mapM h he
    obtain ⟨a, ha, rfl⟩ := Option.map_eq_some_iff.1 hv
    exact ⟨value, ha⟩
  · cases h

/-- Null, or a value read in a given way. -/
def nullable? {α : Type} (read : Raw → Option α) : Raw → Option (Option α)
  | .null => some none
  | value => (read value).map some

end Raw

/-- The fields found in a record's text, and whether they stood in an array. -/
structure Record where
  fields : List (String × Raw)
  positional : Bool

namespace Record

def ofRaw? (names : List String) : Raw → Option Record
  | .object members =>
      let fields := members.filter fun (key, _) => names.contains key
      if (fields.map Prod.fst).Nodup then some ⟨fields, false⟩ else none
  | .array items => if items.length ≤ names.length then some ⟨names.zip items, true⟩ else none
  | _ => none

def get? (record : Record) (name : String) : Option Raw :=
  record.fields.lookup name

def required? {α : Type} (record : Record) (name : String) (read : Raw → Option α) : Option α :=
  (record.get? name).bind read

def withDefault? {α : Type} (record : Record) (name : String) (default : α)
    (read : Raw → Option α) : Option α :=
  match record.get? name with
  | none => some default
  | some value => read value

def optional? {α : Type} (record : Record) (name : String) (read : Raw → Option α) :
    Option (Option α) :=
  record.withDefault? name none (Raw.nullable? read)

/-- A nullable field that may be left out of an object but has its place in an array. -/
def nullable? {α : Type} (record : Record) (name : String) (read : Raw → Option α) :
    Option (Option α) :=
  if record.positional then record.required? name (Raw.nullable? read)
  else record.optional? name read

end Record

end ContentStore.Json

/-!
# Maps that remember declaration order

Entries stand in the order in which their keys first came. Writing an existing key again changes its
value and keeps its place.
-/

namespace ContentStore

namespace Entries

variable {V : Type}

/-- Writes one entry: in place where the key exists, else at the end. -/
def put (key : String) (value : V) : List (String × V) → List (String × V)
  | [] => [(key, value)]
  | (k, v) :: rest =>
      if k = key then (key, value) :: rest
      else (k, v) :: put key value rest

def erase (key : String) (entries : List (String × V)) : List (String × V) :=
  entries.filter fun entry => entry.1 != key

/-- The entries left after writing all pairs in turn. -/
def collect (pairs : List (String × V)) : List (String × V) :=
  pairs.foldl (fun entries (key, value) => put key value entries) []

def keys (entries : List (String × V)) : List String :=
  entries.map Prod.fst

theorem keys_put (key : String) (value : V) (entries : List (String × V)) :
    keys (put key value entries) =
      if key ∈ keys entries then keys entries else keys entries ++ [key] := by
  induction entries with
  | nil => simp [put, keys]
  | cons entry rest ih =>
      obtain ⟨k, v⟩ := entry
      by_cases h : k = key
      · simp [put, h, keys]
      · have h' : ¬ key = k := fun e => h e.symm
        simp only [keys] at ih
        by_cases hm : key ∈ rest.map Prod.fst
        · simp [put, h, keys, ih, hm]
        · simp [put, h, h', keys, ih, hm]

theorem nodup_put {key : String} {value : V} {entries : List (String × V)}
    (h : (keys entries).Nodup) : (keys (put key value entries)).Nodup := by
  rw [keys_put]
  split
  · exact h
  · next hn => exact List.nodup_append.2 ⟨h, by simp, by
      intro a ha b hb
      rw [List.mem_singleton.1 hb]
      exact fun e => hn (e ▸ ha)⟩

@[simp] theorem lookup_put_self (key : String) (value : V) (entries : List (String × V)) :
    (put key value entries).lookup key = some value := by
  induction entries with
  | nil => simp [put]
  | cons entry rest ih =>
      obtain ⟨k, v⟩ := entry
      by_cases h : k = key
      · simp [put, h]
      · have h' : (key == k) = false := by simp [Ne.symm h]
        simp [put, h, h', ih, List.lookup_cons]

theorem lookup_put_of_ne {key other : String} (h : other ≠ key) (value : V)
    (entries : List (String × V)) :
    (put key value entries).lookup other = entries.lookup other := by
  have ho : (other == key) = false := by simp [h]
  induction entries with
  | nil => simp [put, List.lookup_cons, ho]
  | cons entry rest ih =>
      obtain ⟨k, v⟩ := entry
      by_cases hk : k = key
      · subst hk; simp [put, List.lookup_cons, ho]
      · by_cases hok : other = k <;> simp [put, hk, List.lookup_cons, hok, ih]

@[simp] theorem lookup_erase_self (key : String) (entries : List (String × V)) :
    (erase key entries).lookup key = none := by
  rw [List.lookup_eq_none_iff]
  intro entry he
  have hne : entry.1 ≠ key := by simpa using (List.mem_filter.1 he).2
  simpa using hne.symm

theorem lookup_erase_of_ne {key other : String} (h : other ≠ key) (entries : List (String × V)) :
    (erase key entries).lookup other = entries.lookup other := by
  have ho : (other == key) = false := by simpa using h
  induction entries with
  | nil => rfl
  | cons entry rest ih =>
      obtain ⟨k, v⟩ := entry
      unfold erase at ih ⊢
      by_cases hk : k = key
      · subst hk
        simpa [List.lookup_cons, ho] using ih
      · simp [hk, List.lookup_cons, ih]

theorem mem_put {key : String} {value : V} {entry : String × V} {entries : List (String × V)}
    (h : entry ∈ put key value entries) : entry = (key, value) ∨ entry ∈ entries := by
  induction entries with
  | nil => exact .inl (by simpa [put] using h)
  | cons first rest ih =>
      obtain ⟨k, v⟩ := first
      unfold put at h
      split at h <;> grind

/-- Collecting adds no entries. -/
theorem mem_of_mem_collect {entry : String × V} {pairs : List (String × V)}
    (h : entry ∈ collect pairs) : entry ∈ pairs := by
  suffices ∀ done : List (String × V),
      entry ∈ pairs.foldl (fun found (key, value) => put key value found) done →
        entry ∈ done ∨ entry ∈ pairs by
    simpa using this [] h
  clear h
  induction pairs with
  | nil => simp
  | cons first rest ih =>
      intro done he
      rcases ih _ he with hd | hr
      · rcases mem_put hd with rfl | hd
        · exact .inr (by simp)
        · exact .inl hd
      · exact .inr (List.mem_cons_of_mem _ hr)

theorem nodup_foldl_put (pairs : List (String × V)) {entries : List (String × V)}
    (h : (keys entries).Nodup) :
    (keys (pairs.foldl (fun entries (key, value) => put key value entries) entries)).Nodup := by
  induction pairs generalizing entries with
  | nil => exact h
  | cons pair rest ih => exact ih (nodup_put h)

theorem nodup_collect (pairs : List (String × V)) : (keys (collect pairs)).Nodup :=
  nodup_foldl_put pairs List.nodup_nil

end Entries

/-- A map from texts that keeps its entries in declaration order. -/
structure OrderedMap (V : Type) where
  entries : List (String × V)
  distinct : (Entries.keys entries).Nodup

namespace OrderedMap

variable {V : Type}

@[ext] theorem ext {m n : OrderedMap V} (h : m.entries = n.entries) : m = n := by
  cases m; cases n; cases h; rfl

def empty : OrderedMap V := ⟨[], List.nodup_nil⟩

/-- Writes an entry; an existing key keeps its place. -/
def insert (m : OrderedMap V) (key : String) (value : V) : OrderedMap V :=
  ⟨Entries.put key value m.entries, Entries.nodup_put m.distinct⟩

def ofList (pairs : List (String × V)) : OrderedMap V :=
  ⟨Entries.collect pairs, Entries.nodup_collect pairs⟩

def get? (m : OrderedMap V) (key : String) : Option V :=
  m.entries.lookup key

def contains (m : OrderedMap V) (key : String) : Bool :=
  (m.get? key).isSome

def keys (m : OrderedMap V) : List String :=
  Entries.keys m.entries

def values (m : OrderedMap V) : List V :=
  m.entries.map Prod.snd

def size (m : OrderedMap V) : Nat :=
  m.entries.length

def isEmpty (m : OrderedMap V) : Bool :=
  m.entries.isEmpty

/-- Sets every value from its place and its old value; keys and places stay. -/
def mapValues {W : Type} (m : OrderedMap V) (f : Nat → String → V → W) : OrderedMap W where
  entries := m.entries.mapIdx fun place (key, value) => (key, f place key value)
  distinct := by
    have h : (m.entries.mapIdx fun place (key, value) => (key, f place key value)).map Prod.fst =
        m.entries.map Prod.fst := by
      apply List.ext_getElem <;> simp
    simpa only [Entries.keys, h] using m.distinct

@[simp] theorem get?_insert_self (m : OrderedMap V) (key : String) (value : V) :
    (m.insert key value).get? key = some value :=
  Entries.lookup_put_self key value m.entries

theorem get?_insert_of_ne (m : OrderedMap V) {key other : String} (h : other ≠ key) (value : V) :
    (m.insert key value).get? other = m.get? other :=
  Entries.lookup_put_of_ne h value m.entries

theorem keys_insert (m : OrderedMap V) (key : String) (value : V) :
    (m.insert key value).keys = if key ∈ m.keys then m.keys else m.keys ++ [key] :=
  Entries.keys_put key value m.entries

end OrderedMap

end ContentStore

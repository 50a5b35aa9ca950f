/-!
# Maps and sets sorted by key

Entries stand in ascending key order, each key once; the last value written for a key is the one kept.
Texts are ordered by their characters' code points.
-/

namespace ContentStore

open Std (TransOrd LawfulEqOrd OrientedOrd)

namespace Entries

variable {K V : Type} [Ord K]

def insertSorted (key : K) (value : V) : List (K × V) → List (K × V)
  | [] => [(key, value)]
  | (k, v) :: rest =>
      match compare key k with
      | .lt => (key, value) :: (k, v) :: rest
      | .eq => (key, value) :: rest
      | .gt => (k, v) :: insertSorted key value rest

def sort (pairs : List (K × V)) : List (K × V) :=
  pairs.foldl (fun entries (key, value) => insertSorted key value entries) []

def Ascending (entries : List (K × V)) : Prop :=
  entries.Pairwise fun a b => compare a.1 b.1 = .lt

instance (entries : List (K × V)) : Decidable (Ascending entries) :=
  inferInstanceAs (Decidable (List.Pairwise _ _))

theorem mem_insertSorted {key : K} {value : V} {entry : K × V} {entries : List (K × V)}
    (h : entry ∈ insertSorted key value entries) : entry = (key, value) ∨ entry ∈ entries := by
  induction entries with
  | nil => simpa [insertSorted] using h
  | cons first rest ih =>
      obtain ⟨k, v⟩ := first
      unfold insertSorted at h
      split at h <;> grind

theorem ascending_insertSorted [TransOrd K] [LawfulEqOrd K] {key : K} {value : V}
    {entries : List (K × V)} (h : Ascending entries) :
    Ascending (insertSorted key value entries) := by
  induction entries with
  | nil => simp [insertSorted, Ascending]
  | cons first rest ih =>
      obtain ⟨k, v⟩ := first
      unfold Ascending at h
      obtain ⟨hfirst, hrest⟩ := List.pairwise_cons.1 h
      unfold insertSorted
      split
      · next hlt =>
          refine List.pairwise_cons.2 ⟨?_, h⟩
          intro entry he
          rcases List.mem_cons.1 he with rfl | he
          · exact hlt
          · exact Std.TransCmp.lt_trans hlt (hfirst entry he)
      · next heq =>
          have : key = k := LawfulEqOrd.eq_of_compare heq
          subst this
          exact List.pairwise_cons.2 ⟨hfirst, hrest⟩
      · next hgt =>
          refine List.pairwise_cons.2 ⟨?_, ih hrest⟩
          intro entry he
          rcases mem_insertSorted he with rfl | he
          · exact Std.OrientedCmp.lt_of_gt hgt
          · exact hfirst entry he

theorem ascending_foldl_insertSorted [TransOrd K] [LawfulEqOrd K] (pairs : List (K × V))
    {entries : List (K × V)} (h : Ascending entries) :
    Ascending (pairs.foldl (fun entries (key, value) => insertSorted key value entries) entries) := by
  induction pairs generalizing entries with
  | nil => exact h
  | cons pair rest ih => exact ih (ascending_insertSorted h)

theorem ascending_sort [TransOrd K] [LawfulEqOrd K] (pairs : List (K × V)) :
    Ascending (sort pairs) :=
  ascending_foldl_insertSorted pairs List.Pairwise.nil

@[simp] theorem lookup_insertSorted_self [BEq K] [LawfulBEq K] [LawfulEqOrd K] (key : K) (value : V)
    (entries : List (K × V)) : (insertSorted key value entries).lookup key = some value := by
  induction entries with
  | nil => simp [insertSorted]
  | cons first rest ih =>
      obtain ⟨k, v⟩ := first
      unfold insertSorted
      split
      · simp
      · simp
      · next hgt =>
          have hne : (key == k) = false := by
            rw [beq_eq_false_iff_ne]
            rintro rfl
            simp at hgt
          simp [List.lookup_cons, hne, ih]

theorem lookup_insertSorted_of_ne [BEq K] [LawfulBEq K] [LawfulEqOrd K] {key other : K}
    (h : other ≠ key) (value : V) (entries : List (K × V)) :
    (insertSorted key value entries).lookup other = entries.lookup other := by
  have ho : (other == key) = false := by simpa using h
  induction entries with
  | nil => simp [insertSorted, List.lookup_cons, ho]
  | cons first rest ih =>
      obtain ⟨k, v⟩ := first
      unfold insertSorted
      split
      · simp [List.lookup_cons, ho]
      · next heq =>
          have : key = k := LawfulEqOrd.eq_of_compare heq
          subst this
          simp [List.lookup_cons, ho]
      · simp [List.lookup_cons, ih]

/-- An entry whose key comes after all others goes to the end. -/
theorem insertSorted_of_forall_lt [OrientedOrd K] {key : K} {value : V} {entries : List (K × V)}
    (h : ∀ entry ∈ entries, compare entry.1 key = .lt) :
    insertSorted key value entries = entries ++ [(key, value)] := by
  induction entries with
  | nil => rfl
  | cons first rest ih =>
      obtain ⟨k, v⟩ := first
      have hk : compare key k = .gt := Std.OrientedCmp.gt_of_lt (h (k, v) (by simp))
      simp [insertSorted, hk, ih fun entry he => h entry (by simp [he])]

/-- Sorting adds no entries. -/
theorem mem_of_mem_sort {entry : K × V} {pairs : List (K × V)} (h : entry ∈ sort pairs) :
    entry ∈ pairs := by
  suffices ∀ done : List (K × V),
      entry ∈ pairs.foldl (fun found (key, value) => insertSorted key value found) done →
        entry ∈ done ∨ entry ∈ pairs by
    simpa using this [] h
  clear h
  induction pairs with
  | nil => simp
  | cons first rest ih =>
      intro done he
      rcases ih _ he with hd | hr
      · rcases mem_insertSorted hd with rfl | hd
        · exact .inr (by simp)
        · exact .inl hd
      · exact .inr (List.mem_cons_of_mem _ hr)

/-- Sorting keeps entries that are in order already. -/
theorem sort_of_ascending [OrientedOrd K] {entries : List (K × V)} (h : Ascending entries) :
    sort entries = entries := by
  suffices ∀ done : List (K × V), Ascending (done ++ entries) →
      entries.foldl (fun found (key, value) => insertSorted key value found) done = done ++ entries from
    this [] h
  clear h
  induction entries with
  | nil => simp
  | cons first rest ih =>
      obtain ⟨key, value⟩ := first
      intro done hdone
      have hlast : ∀ entry ∈ done, compare entry.1 key = .lt := fun entry he =>
        (List.pairwise_append.1 hdone).2.2 entry he (key, value) (by simp)
      simp only [List.foldl_cons]
      rw [insertSorted_of_forall_lt hlast, ih _ (by simpa using hdone)]
      simp

end Entries

/-- A map whose entries stand in ascending key order. -/
structure SortedMap (K V : Type) [Ord K] where
  entries : List (K × V)
  ascending : Entries.Ascending entries

namespace SortedMap

variable {K V : Type} [Ord K]

@[ext] theorem ext {m n : SortedMap K V} (h : m.entries = n.entries) : m = n := by
  cases m; cases n; cases h; rfl

def empty : SortedMap K V := ⟨[], List.Pairwise.nil⟩

def get? [BEq K] (m : SortedMap K V) (key : K) : Option V :=
  m.entries.lookup key

def keys (m : SortedMap K V) : List K :=
  m.entries.map Prod.fst

def size (m : SortedMap K V) : Nat :=
  m.entries.length

def isEmpty (m : SortedMap K V) : Bool :=
  m.entries.isEmpty

/-- Applies a function to every value; keys stay. -/
def mapValues {W : Type} (m : SortedMap K V) (f : V → W) : SortedMap K W where
  entries := m.entries.map fun (key, value) => (key, f value)
  ascending := by simpa [Entries.Ascending, List.pairwise_map] using m.ascending

variable [TransOrd K] [LawfulEqOrd K]

def insert (m : SortedMap K V) (key : K) (value : V) : SortedMap K V :=
  ⟨Entries.insertSorted key value m.entries, Entries.ascending_insertSorted m.ascending⟩

def ofList (pairs : List (K × V)) : SortedMap K V :=
  ⟨Entries.sort pairs, Entries.ascending_sort pairs⟩

theorem mem_of_mem_ofList {entry : K × V} {pairs : List (K × V)}
    (h : entry ∈ (ofList pairs).entries) : entry ∈ pairs :=
  Entries.mem_of_mem_sort h

@[simp] theorem get?_insert_self [BEq K] [LawfulBEq K] (m : SortedMap K V) (key : K) (value : V) :
    (m.insert key value).get? key = some value :=
  Entries.lookup_insertSorted_self key value m.entries

theorem get?_insert_of_ne [BEq K] [LawfulBEq K] (m : SortedMap K V) {key other : K}
    (h : other ≠ key) (value : V) : (m.insert key value).get? other = m.get? other :=
  Entries.lookup_insertSorted_of_ne h value m.entries

/-- The map of its own entries is the map itself. -/
@[simp] theorem ofList_entries (m : SortedMap K V) : ofList m.entries = m :=
  SortedMap.ext (Entries.sort_of_ascending m.ascending)

end SortedMap

abbrev SortedSet (K : Type) [Ord K] := SortedMap K Unit

namespace SortedSet

variable {K : Type} [Ord K]

def toList (s : SortedSet K) : List K :=
  s.keys

def contains [BEq K] (s : SortedSet K) (value : K) : Bool :=
  (s.get? value).isSome

variable [TransOrd K] [LawfulEqOrd K]

def ofList (values : List K) : SortedSet K :=
  SortedMap.ofList (values.map fun value => (value, ()))

def union (s : SortedSet K) (values : List K) : SortedSet K :=
  ofList (s.toList ++ values)

end SortedSet

end ContentStore

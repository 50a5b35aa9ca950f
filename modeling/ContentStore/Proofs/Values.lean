import ContentStore.Json.Basic
import ContentStore.Keyed.Ordered
import ContentStore.Keyed.Sorted
import ContentStore.Proofs.Gather
import Mathlib.Data.List.Induction

/-!
# Induction over JSON values

The parts of a value are its items, or the values of its members. Members are looked up by key, so that
what a key holds is what the first of its members holds.
-/

namespace ContentStore

namespace Json

/-- Induction over a value by its parts. -/
@[elab_as_elim]
theorem treeInduction {motive : Json → Prop} (null : motive .null) (bool : ∀ b, motive (.bool b))
    (number : ∀ n, motive (.number n)) (string : ∀ s, motive (.string s))
    (array : ∀ items, (∀ item ∈ items, motive item) → motive (.array items))
    (object : ∀ members, (∀ member ∈ members, motive member.2) → motive (.object members)) :
    ∀ value, motive value
  | .null => null
  | .bool b => bool b
  | .number n => number n
  | .string s => string s
  | .array items =>
      array items fun item h =>
        have : sizeOf item < sizeOf items := List.sizeOf_lt_of_mem h
        treeInduction null bool number string array object item
  | .object members =>
      object members fun member h =>
        have : sizeOf member < sizeOf members := List.sizeOf_lt_of_mem h
        have : sizeOf member.2 < sizeOf member := by
          cases member
          simp only [Prod.mk.sizeOf_spec]
          omega
        treeInduction null bool number string array object member.2
termination_by value => sizeOf value

theorem isNull_iff {value : Json} : value.isNull = true ↔ value = .null := by
  cases value <;> simp [isNull]

end Json

namespace Entries

variable {V W : Type}

theorem mem_of_lookup {K : Type} [BEq K] [LawfulBEq K] {key : K} {value : V} {entries : List (K × V)}
    (h : entries.lookup key = some value) : (key, value) ∈ entries := by
  obtain ⟨before, after, rfl, -⟩ := List.lookup_eq_some_iff.1 h
  simp

/-- In a list of entries under distinct keys, what is found under a key is its one entry. -/
theorem lookup_eq_some_iff_mem {K : Type} [BEq K] [LawfulBEq K] {entries : List (K × V)}
    (hn : (entries.map Prod.fst).Nodup) {key : K} {value : V} :
    entries.lookup key = some value ↔ (key, value) ∈ entries := by
  refine ⟨mem_of_lookup, fun h => ?_⟩
  induction entries with
  | nil => cases h
  | cons first rest ih =>
      obtain ⟨other, kept⟩ := first
      obtain ⟨hfirst, hrest⟩ := List.nodup_cons.1 hn
      rcases List.mem_cons.1 h with he | hmem
      · cases he
        simp
      · have hkey : key ∈ rest.map Prod.fst := List.mem_map_of_mem (f := Prod.fst) hmem
        have hbeq : (key == other) = false := by
          simpa using fun he : key = other => hfirst (he ▸ hkey)
        rw [List.lookup_cons, hbeq]
        exact ih hrest hmem

theorem lookup_map (f : String → V → W) (key : String) (entries : List (String × V)) :
    (entries.map fun entry => (entry.1, f entry.1 entry.2)).lookup key =
      (entries.lookup key).map (f key) := by
  induction entries with
  | nil => rfl
  | cons entry rest ih =>
      obtain ⟨k, v⟩ := entry
      by_cases hk : key = k
      · subst hk
        simp
      · have hb : (key == k) = false := by simpa using hk
        simpa [List.lookup_cons, hb] using ih

theorem lookup_isSome_iff {key : String} {entries : List (String × V)} :
    (entries.lookup key).isSome = true ↔ key ∈ keys entries := by
  induction entries with
  | nil => simp [keys]
  | cons entry rest ih =>
      obtain ⟨k, v⟩ := entry
      by_cases hk : key = k
      · simp [keys, hk]
      · have hb : (key == k) = false := by simpa using hk
        simp only [keys] at ih
        simp [List.lookup_cons, hb, keys, hk, ih]

theorem exists_lookup_of_keys_eq {key : String} {value : V} {entries : List (String × V)}
    {others : List (String × W)} (hk : keys others = keys entries)
    (h : entries.lookup key = some value) : ∃ other, others.lookup key = some other := by
  have hmem : key ∈ keys others := by
    rw [hk]
    exact lookup_isSome_iff.1 (by simp [h])
  exact Option.isSome_iff_exists.1 (lookup_isSome_iff.2 hmem)

theorem lookup_eq_none_of_keys_eq {key : String} {entries : List (String × V)}
    {others : List (String × W)} (hk : keys others = keys entries)
    (h : entries.lookup key = none) : others.lookup key = none := by
  cases ho : others.lookup key with
  | none => rfl
  | some other =>
      obtain ⟨value, hv⟩ := exists_lookup_of_keys_eq hk.symm ho
      simp [h] at hv

end Entries

namespace Json

theorem lookup_setMember_self (key : String) (value : Json) (members : List (String × Json)) :
    (setMember key value members).lookup key = (members.lookup key).map fun _ => value := by
  induction members with
  | nil => rfl
  | cons member rest ih =>
      obtain ⟨k, v⟩ := member
      unfold setMember at ih ⊢
      by_cases hk : k = key
      · simp [hk]
      · have hb : (key == k) = false := by simpa using Ne.symm hk
        simpa [hk, List.lookup_cons, hb] using ih

theorem lookup_setMember_of_ne {key other : String} (h : other ≠ key) (value : Json)
    (members : List (String × Json)) :
    (setMember key value members).lookup other = members.lookup other := by
  induction members with
  | nil => rfl
  | cons member rest ih =>
      obtain ⟨k, v⟩ := member
      unfold setMember at ih ⊢
      by_cases hk : k = key
      · have hb : (other == key) = false := by simpa using h
        simpa [hk, List.lookup_cons, hb] using ih
      · by_cases ho : other = k
        · simp [hk, ho]
        · have hb : (other == k) = false := by simpa using ho
          simpa [hk, List.lookup_cons, hb] using ih

end Json

/-! ## Related lists -/

theorem exists_left_of_forall₂ {α β : Type} {r : α → β → Prop} {as : List α} {bs : List β}
    (h : List.Forall₂ r as bs) {b : β} (hb : b ∈ bs) : ∃ a ∈ as, r a b := by
  induction h with
  | nil => cases hb
  | cons head _ ih =>
      rcases List.mem_cons.1 hb with rfl | hb
      · exact ⟨_, by simp, head⟩
      · obtain ⟨a, ha, hr⟩ := ih hb
        exact ⟨a, List.mem_cons_of_mem _ ha, hr⟩

theorem exists_right_of_forall₂ {α β : Type} {r : α → β → Prop} {as : List α} {bs : List β}
    (h : List.Forall₂ r as bs) {a : α} (ha : a ∈ as) : ∃ b ∈ bs, r a b :=
  exists_left_of_forall₂ h.flip ha

theorem exists_getElem?_of_forall₂ {α β : Type} {r : α → β → Prop} {as : List α} {bs : List β}
    (h : List.Forall₂ r as bs) {place : Nat} {a : α} (ha : as[place]? = some a) :
    ∃ b, bs[place]? = some b ∧ r a b := by
  induction h generalizing place with
  | nil => cases ha
  | cons head _ ih =>
      cases place with
      | zero =>
          cases ha
          exact ⟨_, rfl, head⟩
      | succ place => exact ih ha

theorem forall₂_mem_right {α β : Type} {r : α → β → Prop} {as : List α} {bs : List β}
    (h : List.Forall₂ r as bs) : List.Forall₂ (fun a b => b ∈ bs ∧ r a b) as bs := by
  obtain ⟨hl, hr⟩ := List.forall₂_iff_zip.1 h
  exact List.forall₂_iff_zip.2 ⟨hl, fun hm => ⟨(List.of_mem_zip hm).2, hr hm⟩⟩

/-- What stands beside an element of one list stands beside the related element of the other. -/
theorem exists_zip_of_forall₂ {α β γ : Type} {r : α → β → Prop} {as : List α} {bs : List β}
    (h : List.Forall₂ r as bs) {cs : List γ} {c : γ} {b : β} (hm : (c, b) ∈ cs.zip bs) :
    ∃ a, (c, a) ∈ cs.zip as ∧ r a b := by
  induction h generalizing cs with
  | nil => simp at hm
  | @cons a b as bs head _ ih =>
      cases cs with
      | nil => simp at hm
      | cons first rest =>
          rcases List.mem_cons.1 hm with he | hm
          · cases he
            exact ⟨a, by simp, head⟩
          · obtain ⟨a, ha, hr⟩ := ih hm
            exact ⟨a, List.mem_cons_of_mem _ ha, hr⟩

theorem exists_zip_of_length_eq {α β : Type} {as : List α} {bs : List β} (h : as.length = bs.length)
    {a : α} (ha : a ∈ as) : ∃ b, (a, b) ∈ as.zip bs := by
  rw [← List.map_fst_zip (Nat.le_of_eq h)] at ha
  obtain ⟨⟨_, b⟩, hm, rfl⟩ := List.mem_map.1 ha
  exact ⟨b, hm⟩

/-- What stands beside an element that comes once is found by looking the element up. -/
theorem lookup_zip {α β : Type} [BEq α] [LawfulBEq α] {as : List α} {bs : List β} (hn : as.Nodup)
    {index : Nat} {a : α} {b : β} (ha : as[index]? = some a) (hb : bs[index]? = some b) :
    (as.zip bs).lookup a = some b := by
  induction as generalizing bs index with
  | nil => cases ha
  | cons first rest ih =>
      cases bs with
      | nil => cases hb
      | cons other others =>
          obtain ⟨hfirst, hrest⟩ := List.nodup_cons.1 hn
          cases index with
          | zero =>
              cases ha
              cases hb
              simp
          | succ index =>
              have hne : a ≠ first := fun he => hfirst (he ▸ List.mem_of_getElem? ha)
              have hb' : (a == first) = false := by simpa using hne
              simpa [List.lookup_cons, hb'] using ih hrest ha hb

/-- Where the first parts are mapped to others, the same is found under them. -/
theorem lookup_map_zip {α β γ : Type} [BEq α] [LawfulBEq α] [BEq γ] [LawfulBEq γ] {f : α → γ}
    (hf : Function.Injective f) (as : List α) (bs : List β) (a : α) :
    ((as.map f).zip bs).lookup (f a) = (as.zip bs).lookup a := by
  induction as generalizing bs with
  | nil => rfl
  | cons first rest ih =>
      cases bs with
      | nil => rfl
      | cons other others =>
          have hbeq : (f a == f first) = (a == first) := by
            rw [Bool.eq_iff_iff, beq_iff_eq, beq_iff_eq, hf.eq_iff]
          simp only [List.map_cons, List.zip_cons_cons, List.lookup_cons, hbeq, ih]

theorem forall_mem_zip_iff {α β : Type} {p : β → Prop} {as : List α} {bs : List β}
    (hl : as.length = bs.length) : (∀ entry ∈ as.zip bs, p entry.2) ↔ ∀ b ∈ bs, p b := by
  rw [← List.forall_mem_map, List.map_snd_zip (Nat.le_of_eq hl.symm)]

/-- An element that comes once does not come before its place. -/
theorem not_mem_of_zip_eq {α β : Type} {as : List α} {bs : List β} {before after : List (α × β)}
    {a : α} {b : β} (hl : as.length = bs.length) (hn : as.Nodup)
    (h : as.zip bs = before ++ (a, b) :: after) : a ∉ before.map Prod.fst := by
  rw [← List.map_fst_zip (Nat.le_of_eq hl), h, List.map_append, List.map_cons] at hn
  intro hmem
  exact (List.nodup_append.1 hn).2.2 a hmem a (by simp) rfl

/-- What is related to pairs through their second parts is related to these parts. -/
theorem forall₂_of_zip {α β γ : Type} {r : β → γ → Prop} {as : List α} {bs : List β} {cs : List γ}
    (hl : as.length = bs.length) (h : List.Forall₂ (fun entry c => r entry.2 c) (as.zip bs) cs) :
    List.Forall₂ r bs cs := by
  rw [← List.map_snd_zip (Nat.le_of_eq hl.symm), List.forall₂_map_left_iff]
  exact h

theorem map_eq_of_zip {α β γ : Type} {f : γ → α} {as : List α} {bs : List β} {cs : List γ}
    (hl : as.length = bs.length) (h : List.Forall₂ (fun entry c => f c = entry.1) (as.zip bs) cs) :
    cs.map f = as := by
  rw [← List.map_fst_zip (Nat.le_of_eq hl), ← List.forall₂_eq_eq_eq, List.forall₂_map_left_iff,
    List.forall₂_map_right_iff]
  exact (h.imp fun _ _ he => he).flip

theorem forall₂_zip_map {α β γ δ : Type} {r : α → β → Prop} (f : γ → δ) {as : List α} {bs : List β}
    (h : List.Forall₂ r as bs) (cs : List γ) :
    List.Forall₂ (fun entry other => other.1 = f entry.1 ∧ r other.2 entry.2) (cs.zip bs)
      ((cs.map f).zip as) := by
  induction h generalizing cs with
  | nil => simp
  | cons head _ ih =>
      cases cs with
      | nil => exact .nil
      | cons c cs => exact .cons ⟨rfl, head⟩ (ih cs)

/-- Where a step succeeds at every element, it succeeds along the list. -/
theorem exists_mapM_eq_some {α β : Type} {f : α → Option β} {r : α → β → Prop} {as : List α}
    (h : ∀ a ∈ as, ∃ b, f a = some b ∧ r a b) : ∃ bs, as.mapM f = some bs ∧ List.Forall₂ r as bs := by
  induction as with
  | nil => exact ⟨[], rfl, .nil⟩
  | cons a as ih =>
      obtain ⟨b, hb, hr⟩ := h a (by simp)
      obtain ⟨bs, hbs, hrest⟩ := ih fun other ho => h other (by simp [ho])
      exact ⟨b :: bs, by simp [List.mapM_cons, hb, hbs], .cons hr hrest⟩

theorem filterMap_eq_of_forall₂ {α β γ : Type} {r : α → β → Prop} {f : α → Option γ}
    {g : β → Option γ} (hr : ∀ a b, r a b → f a = g b) {as : List α} {bs : List β}
    (h : List.Forall₂ r as bs) : as.filterMap f = bs.filterMap g := by
  induction h with
  | nil => rfl
  | cons head _ ih => simp only [List.filterMap_cons, hr _ _ head, ih]

theorem any_eq_of_forall₂ {α : Type} {r : α → α → Prop} {f g : α → Bool} {as bs : List α}
    (h : List.Forall₂ r as bs) (hr : ∀ a b, r a b → f b = g a) : bs.any f = as.any g := by
  induction h with
  | nil => rfl
  | cons hab _ ih => rw [List.any_cons, List.any_cons, hr _ _ hab, ih]

/-! ## Lists that a fold builds -/

/-- Where every step gives a list with elements, only no step at all gives the empty one. -/
theorem foldl_eq_nil {α β : Type} {f : List β → α → List β} (h : ∀ found a, f found a ≠ [])
    {as : List α} (hf : as.foldl f [] = []) : as = [] := by
  induction as using List.reverseRecOn with
  | nil => rfl
  | append_singleton as a _ =>
      rw [List.foldl_append] at hf
      exact absurd hf (h _ a)

/-! ## Members of sorted lists -/

theorem Entries.mem_keys_insertSorted {K V : Type} [Ord K] [Std.LawfulEqOrd K] {key other : K}
    {value : V} {entries : List (K × V)} :
    other ∈ (Entries.insertSorted key value entries).map Prod.fst ↔
      other = key ∨ other ∈ entries.map Prod.fst := by
  induction entries with
  | nil => simp [Entries.insertSorted]
  | cons entry rest ih =>
      obtain ⟨k, v⟩ := entry
      unfold Entries.insertSorted
      split
      · simp
      · next heq =>
          have hk : key = k := Std.LawfulEqOrd.eq_of_compare heq
          simp [hk]
      · simp only [List.map_cons, List.mem_cons, ih]
        exact or_left_comm

/-- The keys of sorted entries are the keys of the pairs written. -/
theorem Entries.mem_keys_sort {K V : Type} [Ord K] [Std.LawfulEqOrd K] {key : K}
    {pairs : List (K × V)} :
    key ∈ (Entries.sort pairs).map Prod.fst ↔ key ∈ pairs.map Prod.fst := by
  induction pairs using List.reverseRecOn with
  | nil => rfl
  | append_singleton pairs pair ih =>
      have hlast : Entries.sort (pairs ++ [pair]) =
          Entries.insertSorted pair.1 pair.2 (Entries.sort pairs) := by
        simp [Entries.sort, List.foldl_append]
      rw [hlast, Entries.mem_keys_insertSorted, ih, List.map_append, List.mem_append, or_comm]
      simp

theorem SortedSet.mem_toList_ofList {K : Type} [Ord K] [Std.TransOrd K] [Std.LawfulEqOrd K]
    {value : K} {values : List K} : value ∈ (SortedSet.ofList values).toList ↔ value ∈ values :=
  Entries.mem_keys_sort.trans (by simp)

theorem SortedSet.eq_nil_of_toList_ofList {K : Type} [Ord K] [Std.TransOrd K] [Std.LawfulEqOrd K]
    {values : List K} (h : (SortedSet.ofList values).toList = []) : values = [] := by
  refine List.eq_nil_iff_forall_not_mem.2 fun value hv => ?_
  have hmem := SortedSet.mem_toList_ofList.2 hv
  rw [h] at hmem
  cases hmem

namespace SortedMap

variable {V : Type}

/-- The entries of a map are its keys with their values. -/
theorem mem_entries_iff {m : SortedMap String V} {key : String} {value : V} :
    (key, value) ∈ m.entries ↔ m.get? key = some value := by
  refine ⟨fun h => ?_, Entries.mem_of_lookup⟩
  obtain ⟨entries, hascending⟩ := m
  change entries.lookup key = some value
  replace h : (key, value) ∈ entries := h
  induction entries with
  | nil => cases h
  | cons first rest ih =>
      obtain ⟨hfirst, hrest⟩ := List.pairwise_cons.1 hascending
      rcases List.mem_cons.1 h with rfl | h
      · exact List.lookup_cons_self
      · have hne : (key == first.1) = false := by
          rw [beq_eq_false_iff_ne]
          rintro rfl
          have := hfirst _ h
          simp at this
        rw [List.lookup_cons, hne]
        exact ih hrest h

/-- A map of entries with different keys has those entries. -/
theorem mem_ofList_iff {pairs : List (String × V)} (hn : (pairs.map Prod.fst).Nodup)
    {entry : String × V} : entry ∈ (ofList pairs).entries ↔ entry ∈ pairs := by
  refine ⟨mem_of_mem_ofList, fun h => ?_⟩
  obtain ⟨key, value⟩ := entry
  rw [mem_entries_iff]
  induction pairs using List.reverseRecOn with
  | nil => cases h
  | append_singleton pairs last ih =>
      have hlast : ofList (pairs ++ [last]) = (ofList pairs).insert last.1 last.2 :=
        SortedMap.ext List.foldl_append
      rw [List.map_append, List.nodup_append] at hn
      rw [hlast]
      rcases List.mem_append.1 h with h | h
      · have hne : key ≠ last.1 := hn.2.2 _ (List.mem_map_of_mem h) _ (by simp)
        rw [get?_insert_of_ne _ hne]
        exact ih hn.1 h
      · rw [← List.mem_singleton.1 h]
        exact get?_insert_self _ _ _

end SortedMap

/-! ## Values each once -/

section EachOnce

variable {α : Type} [BEq α] [LawfulBEq α]

/-- The values of a list in the order in which they come first, each once. -/
def eachOnce {α : Type} [BEq α] (values : List α) : List α :=
  values.foldl (fun found value => if found.contains value then found else found ++ [value]) []

theorem eachOnce_concat (values : List α) (value : α) :
    eachOnce (values ++ [value]) =
      if value ∈ eachOnce values then eachOnce values else eachOnce values ++ [value] := by
  simp [eachOnce, List.foldl_append]

theorem mem_eachOnce {values : List α} {value : α} : value ∈ eachOnce values ↔ value ∈ values := by
  induction values using List.reverseRecOn with
  | nil => rfl
  | append_singleton values last ih =>
      rw [eachOnce_concat, List.mem_append, List.mem_singleton]
      split
      · next hlast =>
          rw [ih, iff_self_or]
          rintro rfl
          exact ih.1 hlast
      · rw [List.mem_append, List.mem_singleton, ih]

/-- Of two listed values the one that is listed first has come before the other one ever came. -/
theorem pairwise_eachOnce (values : List α) : (eachOnce values).Pairwise fun first second =>
    first ≠ second ∧ ∃ before after, values = before ++ first :: after ∧ second ∉ before := by
  induction values using List.reverseRecOn with
  | nil => exact .nil
  | append_singleton values last ih =>
      have hlonger := ih.imp (S := fun first second => first ≠ second ∧
        ∃ before after, values ++ [last] = before ++ first :: after ∧ second ∉ before) <| by
        rintro first second ⟨hne, before, after, hvalues, hsecond⟩
        exact ⟨hne, before, after ++ [last], by rw [hvalues, List.append_assoc]; rfl, hsecond⟩
      rw [eachOnce_concat]
      split
      · exact hlonger
      · next hlast =>
          refine List.pairwise_append.2 ⟨hlonger, List.pairwise_singleton _ _, ?_⟩
          intro first hfirst second hsecond
          cases List.mem_singleton.1 hsecond
          obtain ⟨before, after, hvalues⟩ := List.mem_iff_append.1 (mem_eachOnce.1 hfirst)
          refine ⟨fun he => hlast (he ▸ hfirst), before, after ++ [last], ?_, fun hmem => ?_⟩
          · rw [hvalues, List.append_assoc]
            rfl
          · refine hlast (mem_eachOnce.2 ?_)
            rw [hvalues]
            exact List.mem_append_left _ hmem

end EachOnce

end ContentStore

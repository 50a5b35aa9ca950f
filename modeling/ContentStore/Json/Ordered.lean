import ContentStore.Json.Build
import ContentStore.Json.Record
import ContentStore.Keyed.Ordered

/-!
# The JSON form of ordered maps

A map in declaration order is an object whose members stand in the order of the map. It is read member by
member, so that of a repeated key the first place and the last value count.
-/

namespace ContentStore.OrderedMap

open Json (Raw)

variable {V : Type}

/-- The written form of a map: its entries in their order. -/
def toJson (write : V → Json) (m : OrderedMap V) : Json :=
  Json.ofEntries write m.entries

/-- Reads a map member by member, each written to the map as soon as its value is read. -/
def ofRaw? (read : Raw → Option V) : Raw → Option (OrderedMap V)
  | .object members =>
      members.foldlM (fun m member => (read member.2).map (m.insert member.1)) empty
  | _ => none

theorem foldl_insert (pairs : List (String × V)) :
    pairs.foldl (fun m pair => m.insert pair.1 pair.2) empty = ofList pairs := by
  have hentries : ∀ m : OrderedMap V, (pairs.foldl (fun m pair => m.insert pair.1 pair.2) m).entries =
      pairs.foldl (fun entries pair => Entries.put pair.1 pair.2 entries) m.entries := by
    induction pairs with
    | nil => exact fun _ => rfl
    | cons pair rest ih => exact fun m => ih (m.insert pair.1 pair.2)
  exact OrderedMap.ext (hentries empty)

theorem members?_cons (read : Raw → Option V) (member : String × Raw) (rest : List (String × Raw)) :
    Raw.members? read (.object (member :: rest)) =
      (read member.2).bind fun value =>
        (Raw.members? read (.object rest)).map ((member.1, value) :: ·) := by
  rw [Raw.members?, List.mapM_cons]
  cases hread : read member.2 with
  | none => simp [hread]
  | some value =>
      simp only [hread, Raw.members?, Option.bind_eq_bind, Option.bind_some, Option.map_eq_bind]
      rfl

/-- Reading member by member comes to reading all members before the map is built. -/
theorem ofRaw?_eq_map (read : Raw → Option V) (raw : Raw) :
    ofRaw? read raw = (raw.members? read).map ofList := by
  cases raw with
  | object members =>
      have hfold : ∀ m : OrderedMap V,
          members.foldlM (fun m member => (read member.2).map (m.insert member.1)) m =
            (Raw.members? read (.object members)).map
              (List.foldl (fun m pair => m.insert pair.1 pair.2) m) := by
        induction members with
        | nil => exact fun _ => rfl
        | cons member rest ih =>
            intro m
            rw [members?_cons, List.foldlM_cons]
            cases read member.2 with
            | none => rfl
            | some value =>
                refine (ih (m.insert member.1 value)).trans ?_
                rw [Option.bind_some, Option.map_map]
                rfl
      rw [ofRaw?, hfold, ← funext foldl_insert]
  | _ => rfl

/-- What is read as an entry of a map is read from the value of a member. -/
theorem exists_of_mem_ofRaw? {read : Raw → Option V} {raw : Raw} {m : OrderedMap V}
    (h : ofRaw? read raw = some m) {entry : String × V} (he : entry ∈ m.entries) :
    ∃ value, read value = some entry.2 := by
  rw [ofRaw?_eq_map, Option.map_eq_some_iff] at h
  obtain ⟨pairs, hpairs, rfl⟩ := h
  exact Json.Raw.exists_of_mem_members? hpairs (Entries.mem_of_mem_collect he)

end ContentStore.OrderedMap

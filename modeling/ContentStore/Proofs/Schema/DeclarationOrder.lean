import ContentStore.Proofs.Schema.Text
import ContentStore.Proofs.Values

/-!
# Maps in declaration order

A map written pair by pair lists each key where it first came and gives it the value that came last. The
same map is read from an object whose members are these pairs, and it is read back from its own text.
-/

namespace ContentStore

open Json (Raw ReadsBack)

variable {V W : Type}

namespace OrderedMap

/-! ## Writing pairs in turn -/

theorem ofList_concat (pairs : List (String × V)) (pair : String × V) :
    ofList (pairs ++ [pair]) = (ofList pairs).insert pair.1 pair.2 := by
  refine OrderedMap.ext ?_
  simp [ofList, insert, Entries.collect, List.foldl_append]

theorem keys_ofList (pairs : List (String × V)) :
    (ofList pairs).keys = eachOnce (Entries.keys pairs) := by
  induction pairs using List.reverseRecOn with
  | nil => rfl
  | append_singleton pairs pair ih =>
      have hkeys : Entries.keys (pairs ++ [pair]) = Entries.keys pairs ++ [pair.1] := by
        simp [Entries.keys]
      rw [ofList_concat, keys_insert, ih, hkeys, eachOnce_concat]

theorem get?_ofList (pairs : List (String × V)) (key : String) :
    (ofList pairs).get? key = pairs.reverse.lookup key := by
  induction pairs using List.reverseRecOn with
  | nil => rfl
  | append_singleton pairs pair ih =>
      rw [ofList_concat, List.reverse_concat, List.lookup_cons]
      by_cases hkey : key = pair.1
      · rw [hkey, get?_insert_self, beq_self_eq_true]
      · rw [get?_insert_of_ne _ hkey, ih, beq_eq_false_iff_ne.2 hkey]

/-- What a map keeps of the pairs that were written to it: every key once, in the order in which the keys
first came, each with the value that came last. -/
structure Keeps (m : OrderedMap V) (pairs : List (String × V)) : Prop where
  distinct : m.keys.Nodup
  mem_keys : ∀ key, key ∈ m.keys ↔ key ∈ Entries.keys pairs
  inOrder : m.keys.Pairwise fun first second =>
    ∃ before after, Entries.keys pairs = before ++ first :: after ∧ second ∉ before
  last : ∀ before key value after, pairs = before ++ (key, value) :: after →
    key ∉ Entries.keys after → (key, value) ∈ m.entries ∧ m.get? key = some value
  absent : ∀ key, key ∉ Entries.keys pairs → m.get? key = none

theorem keeps_ofList (pairs : List (String × V)) : (ofList pairs).Keeps pairs where
  distinct := (ofList pairs).distinct
  mem_keys key := by rw [keys_ofList, mem_eachOnce]
  inOrder := by
    rw [keys_ofList]
    exact (pairwise_eachOnce _).imp And.right
  last before key value after hpairs hafter := by
    have hget : (ofList pairs).get? key = some value := by
      have hnone : after.reverse.lookup key = none := by
        rw [← Option.not_isSome_iff_eq_none, Entries.lookup_isSome_iff]
        simpa [Entries.keys] using hafter
      rw [get?_ofList, hpairs, List.reverse_append, List.reverse_cons, List.append_assoc,
        List.lookup_append, hnone]
      simp
    exact ⟨Entries.mem_of_lookup hget, hget⟩
  absent key hkey := by
    rw [get?_ofList, ← Option.not_isSome_iff_eq_none, Entries.lookup_isSome_iff]
    simpa [Entries.keys] using hkey

/-! ## Reading and writing the JSON form -/

/-- Members that read as pairs are written to a map as these pairs are. -/
theorem ofRaw?_of_forall₂ {read : Raw → Option V} {members : List (String × Raw)}
    {pairs : List (String × V)} (h : List.Forall₂ (fun member pair =>
      member.1 = pair.1 ∧ read member.2 = some pair.2) members pairs) :
    ofRaw? read (.object members) = some (ofList pairs) := by
  have hfold : ∀ m : OrderedMap V,
      members.foldlM (fun m member => (read member.2).map (m.insert member.1)) m =
        some (pairs.foldl (fun m pair => m.insert pair.1 pair.2) m) := by
    induction h with
    | nil => exact fun _ => rfl
    | @cons member pair members pairs hpair _ ih =>
        intro m
        rw [List.foldlM_cons, hpair.2, hpair.1]
        exact ih _
  rw [← foldl_insert]
  exact hfold empty

/-! ## Setting values -/

theorem keys_mapValues (m : OrderedMap V) (set : Nat → String → V → W) :
    (m.mapValues set).keys = m.keys := by
  refine List.ext_getElem (by simp [keys, Entries.keys, mapValues]) fun place _ _ => ?_
  simp [keys, Entries.keys, mapValues]

theorem getElem?_mapValues (m : OrderedMap V) (set : Nat → String → V → W) (place : Nat) :
    (m.mapValues set).entries[place]? =
      m.entries[place]?.map fun entry => (entry.1, set place entry.1 entry.2) :=
  List.getElem?_mapIdx

/-- Pairs with any repetitions make one map, whether they are written one by one, collected, or read from an
object whose members they are: each key stands once, where it first came, with the value that came last,
and other keys have none. The map is read back from its written form, and from its text if the text can be
read at all. Setting values leaves every key in its place. -/
theorem keeps_declaration_order (write : V → Json) (read : Raw → Option V)
    (pairs : List (String × V)) :
    let m := ofList pairs
    m.Keeps pairs ∧
    pairs.foldl (fun m pair => m.insert pair.1 pair.2) empty = m ∧
    (∀ members : List (String × Raw), List.Forall₂ (fun member pair =>
      member.1 = pair.1 ∧ read member.2 = some pair.2) members pairs →
        ofRaw? read (.object members) = some m) ∧
    ((∀ pair ∈ pairs, ReadsBack write read pair.2) →
      ofRaw? read (Raw.ofJson (m.toJson write)) = some m ∧
      ((m.toJson write).nesting ≤ Json.nestingLimit →
        (Raw.ofText? (m.toJson write).text).bind (ofRaw? read) = some m)) ∧
    ∀ set : Nat → String → V → V, (m.mapValues set).keys = m.keys ∧
      ∀ place, (m.mapValues set).entries[place]? =
        m.entries[place]?.map fun entry => (entry.1, set place entry.1 entry.2) := by
  intro m
  refine ⟨keeps_ofList pairs, foldl_insert pairs, fun _ => ofRaw?_of_forall₂, fun hread => ?_,
    fun set => ⟨m.keys_mapValues set, m.getElem?_mapValues set⟩⟩
  have hback : ReadsBack (toJson write) (ofRaw? read) m :=
    readsBack fun entry he => hread entry (Entries.mem_of_mem_collect he)
  exact ⟨hback, hback.ofText⟩

/-- A key that is written again, with an escape, keeps its first place and takes the later value. -/
theorem keeps_declaration_order_sides :
    let sides := ofList [("b", 1), ("a", 2), ("b", 3)]
    (Raw.ofText? "\x7b\"b\":1,\"a\":2,\"\\u0062\":3\x7d").bind (ofRaw? Raw.nat?) = some sides ∧
    sides.keys = ["b", "a"] ∧ sides.get? "b" = some 3 ∧ sides.get? "c" = none ∧
    (Raw.ofText? (sides.toJson Json.ofNat).text).bind (ofRaw? Raw.nat?) = some sides := by
  intro sides
  obtain ⟨hkeeps, -, hread, hback, -⟩ :=
    keeps_declaration_order Json.ofNat Raw.nat? [("b", 1), ("a", 2), ("b", 3)]
  have htext : Raw.ofText? "\x7b\"b\":1,\"a\":2,\"\\u0062\":3\x7d" =
      some (.object [("b", .number (.int ⟨1, by decide, by decide⟩)),
        ("a", .number (.int ⟨2, by decide, by decide⟩)),
        ("b", .number (.int ⟨3, by decide, by decide⟩))]) := by
    rfl
  refine ⟨?_, by decide, (hkeeps.last [("b", 1), ("a", 2)] "b" 3 [] rfl (by decide)).2,
    hkeeps.absent "c" (by decide), (hback ?_).2 (by decide)⟩
  · rw [htext]
    exact hread _ (.cons ⟨rfl, rfl⟩ (.cons ⟨rfl, rfl⟩ (.cons ⟨rfl, rfl⟩ .nil)))
  · simp only [List.forall_mem_cons]
    exact ⟨rfl, rfl, rfl, List.forall_mem_nil _⟩

end OrderedMap

end ContentStore

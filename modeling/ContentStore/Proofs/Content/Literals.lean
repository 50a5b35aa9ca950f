import ContentStore.Proofs.Content.Conformance
import ContentStore.Proofs.Double.Nearest

/-!
# Numbers admitted by literals

A number is compared with a literal, or with a member of an enumeration, after it has become the double
closest to it. Where some double stands for the number the comparison is exact. Between such numbers an
integer is taken for its neighbour.
-/

namespace ContentStore

namespace Json.Number

def value : Number → ℚ
  | .int n => n.value
  | .float x => x.value

/-- Every number becomes the double closest to it. -/
theorem exists_closest (n : Number) : ∃ y, n.toDouble? = some y ∧ y.ClosestTo n.value := by
  cases n with
  | int n =>
      obtain ⟨y, hy⟩ := Double.exists_ofInt? n
      exact ⟨y, hy, Double.closestTo_of_ofInt? hy⟩
  | float y => exact ⟨y, rfl, y.closestTo_value⟩

end Json.Number

namespace Validator

variable {v : Validator} {schema : Schema} {d : Definition} {n : Json.Number} {y : Double}

theorem isMember_number (hy : n.toDouble? = some y) (expected : EnumValue) :
    isMember (.number n) expected = true ↔ ∃ x, expected = .number x ∧ x.value = y.value := by
  cases expected with
  | string s => simp [isMember]
  | number x =>
      simp only [isMember, hy, Option.any_some, Double.sameValue_iff, EnumValue.number.injEq,
        exists_eq_left']

theorem admits_literal (hy : n.toDouble? = some y) {x : Double}
    (hd : schema.resolve d = .ok (.numberLiteral x)) :
    v.Admits schema d (.number n) ↔ x.value = y.value := by
  rw [admits_of_not_opens hd rfl, leafIssues, unlessHolds_eq_nil, isMember_number hy]
  simp

theorem admits_enum (hy : n.toDouble? = some y) {members : OrderedMap EnumMember}
    (hd : schema.resolve d = .ok (.enum members)) :
    v.Admits schema d (.number n) ↔
      ∃ member ∈ members.values, ∃ x, member.value = .number x ∧ x.value = y.value := by
  rw [admits_of_not_opens hd rfl, leafIssues, unlessHolds_eq_nil, List.any_eq_true]
  simp only [isMember_number hy]

/-- A number literal admits a number, and so does an enumeration on account of one of its members, exactly
if its value is that of the double closest to the number. This is the number itself if any double stands
for it. -/
theorem admits_closest (v : Validator) (schema : Schema) (n : Json.Number) :
    ∃ y : Double, y.ClosestTo n.value ∧ ((∃ z : Double, z.value = n.value) → y.value = n.value) ∧
      (∀ d x, schema.resolve d = .ok (.numberLiteral x) →
        (v.Admits schema d (.number n) ↔ x.value = y.value)) ∧
      ∀ d members, schema.resolve d = .ok (.enum members) →
        (v.Admits schema d (.number n) ↔
          ∃ member ∈ members.values, ∃ x, member.value = .number x ∧ x.value = y.value) := by
  obtain ⟨y, hy, hclosest⟩ := n.exists_closest
  refine ⟨y, hclosest, ?_, fun d x hd => admits_literal hy hd, fun d members hd => admits_enum hy hd⟩
  rintro ⟨z, hz⟩
  rw [← hz] at hclosest ⊢
  exact hclosest.value_eq

/-- The double `2 ^ 53`, above which not every integer has a double. -/
def edge : Double := ⟨false, Double.leastFull, 1, by decide⟩

def afterEdge : Double := ⟨false, Double.leastFull + 1, 1, by decide⟩

def edgeMembers : OrderedMap EnumMember :=
  ⟨[("none", { value := .string "none" }), ("next", { value := .number afterEdge }),
    ("edge", { value := .number edge })], by decide⟩

def edgeSchema : Schema :=
  Schema.ofTypes "Edge" [("Edge", ⟨.numberLiteral edge, trivial⟩), ("Near", ⟨.enum edgeMembers, trivial⟩)]

/-- The integer `2 ^ 53 + 2` has a double: a member of the enumeration admits it, the literal does not. -/
theorem admits_closest_afterEdge :
    let n : Json.Number := .int ⟨9007199254740994, by decide, by decide⟩
    let v : Validator := { formats := .builtins }
    edgeSchema.resolve (.ref "Edge") = .ok (.numberLiteral edge) ∧
    edgeSchema.resolve (.ref "Near") = .ok (.enum edgeMembers) ∧
    ¬ v.Admits edgeSchema (.ref "Edge") (.number n) ∧ v.Admits edgeSchema (.ref "Near") (.number n) := by
  intro n v
  obtain ⟨y, -, hexact, hliteral, henum⟩ := admits_closest v edgeSchema n
  have hedge : edgeSchema.resolve (.ref "Edge") = .ok (.numberLiteral edge) := rfl
  have hnear : edgeSchema.resolve (.ref "Near") = .ok (.enum edgeMembers) := rfl
  have hafter : afterEdge.value = n.value := by
    norm_num [Double.value, Double.magnitude, Double.unit, Double.leastFull, afterEdge, n,
      Json.Number.value]
  have hy : y.value = n.value := hexact ⟨afterEdge, hafter⟩
  refine ⟨hedge, hnear, fun h => ?_, (henum _ _ hnear).2 ?_⟩
  · have hsame := (hliteral _ _ hedge).1 h
    rw [hy, ← hafter] at hsame
    norm_num [Double.value, Double.magnitude, Double.unit, Double.leastFull, edge, afterEdge] at hsame
  · exact ⟨{ value := .number afterEdge }, .tail _ (.head _), afterEdge, rfl, hafter.trans hy.symm⟩

/-- The integer `2 ^ 53 + 1` is not the number of the literal, but the literal admits it, and so does the
enumeration, none of whose members is that number. -/
theorem admits_unequal_pastEdge :
    let n : Json.Number := .int ⟨9007199254740993, by decide, by decide⟩
    edgeSchema.validate (.number n) = .ok [] ∧ edge.value ≠ n.value ∧
    ({ edgeSchema with rootType := "Near" } : Schema).validate (.number n) = .ok [] ∧
    ∀ member ∈ edgeMembers.values, ∀ x, member.value = .number x → x.value ≠ n.value := by
  intro n
  have hedge : edge.value ≠ n.value := by
    norm_num [Double.value, Double.magnitude, Double.unit, Double.leastFull, edge, n, Json.Number.value]
  have hafter : afterEdge.value ≠ n.value := by
    norm_num [Double.value, Double.magnitude, Double.unit, Double.leastFull, afterEdge, n,
      Json.Number.value]
  refine ⟨by rfl, hedge, by rfl, ?_⟩
  simp only [edgeMembers, OrderedMap.values, List.map_cons, List.map_nil, List.forall_mem_cons]
  refine ⟨fun x hx => (by cases hx), fun x hx => ?_, fun x hx => ?_, List.forall_mem_nil _⟩
  · cases hx
    exact hafter
  · cases hx
    exact hedge

end Validator

end ContentStore

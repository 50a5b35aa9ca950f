import ContentStore.Id.Real

/-!
# What a store takes from outside

New ids need suffixes that were never used and new entities a time of creation. Both come from a supply:
a sequence of suffixes of which the first ones are used up, and the time.
-/

namespace ContentStore

/-- A sequence of id suffixes, the number of those used up, and the time in milliseconds. -/
structure Supply where
  suffix : Nat → IdSuffix
  used : Nat
  now : Int64

namespace Supply

def fresh (supply : Supply) (kind : Kind) : RealId kind × Supply :=
  ((supply.suffix supply.used).toId kind, { supply with used := supply.used + 1 })

theorem suffixChar_digitChar : ∀ d : Fin 16, RealId.suffixChar (Nat.digitChar d) = true := by
  decide

def hexSuffix (n : Nat) : IdSuffix where
  chars := (List.range 32).map fun place => Nat.digitChar (n / Nat.pow 16 (31 - place) % 16)
  valid := by
    have hne : ((List.range 32).map fun place =>
        Nat.digitChar (n / Nat.pow 16 (31 - place) % 16)).isEmpty = false := by
      simp [List.range_succ]
    simp only [RealId.validSuffix, hne, Bool.not_false, Bool.true_and, List.all_map, List.all_eq_true]
    intro place _
    exact suffixChar_digitChar ⟨n / Nat.pow 16 (31 - place) % 16, Nat.mod_lt _ (by decide)⟩

def counting : Supply := ⟨hexSuffix, 0, 0⟩

end Supply

end ContentStore

import ContentStore.Proofs.Double.Rounding
import Mathlib.Tactic.FieldSimp

/-!
# The shortest decimal reads back

The shortest decimal of a double lies in its rounding interval, and every decimal there is read as that
double. The limits on a decimal's magnitude are never met by one.
-/

namespace ContentStore

namespace Decimal

def value (d : Decimal) : ℚ :=
  d.digits * 10 ^ d.power

end Decimal

namespace Double

/-! ## The search finds decimals in the rounding interval -/

/-- The test of the grid compares a point and an end of the interval over a common denominator. -/
private theorem grid_products (digits side : Nat) (power quarter : Int) :
    ∃ common : ℚ, 0 < common ∧
      ((digits * (Nat.pow 10 power.toNat * Nat.pow 2 (-quarter).toNat) : Nat) : ℚ) =
        (Decimal.mk digits power).value * common ∧
      ((side * (Nat.pow 10 (-power).toNat * Nat.pow 2 quarter.toNat) : Nat) : ℚ) =
        side * unit quarter * common := by
  refine ⟨10 ^ (-power).toNat * 2 ^ (-quarter).toNat, by positivity, ?_, ?_⟩
  · simp only [Decimal.value, zpow_eq_div (show (10 : ℚ) ≠ 0 by norm_num), Nat.pow_eq]
    push_cast
    field_simp
  · simp only [unit, zpow_eq_div two_ne_zero, Nat.pow_eq]
    push_cast
    field_simp

def inside (x : Double) (power : Int) (digits : Nat) : Bool :=
  let step := Nat.pow 10 power.toNat * Nat.pow 2 (-(x.exponent - 2)).toNat
  let unit := Nat.pow 10 (-power).toNat * Nat.pow 2 (x.exponent - 2).toNat
  if x.mantissa % 2 = 0 then
    x.roundingInterval.1 * unit ≤ digits * step && digits * step ≤ x.roundingInterval.2.2 * unit
  else
    x.roundingInterval.1 * unit < digits * step && digits * step < x.roundingInterval.2.2 * unit

theorem inside_iff (x : Double) (power : Int) (digits : Nat) :
    x.inside power digits = true ↔ x.Nearest (Decimal.mk digits power).value := by
  have hproducts (side : Nat) := grid_products digits side power (x.exponent - 2)
  obtain ⟨low, hlow, hpoint, hlowEnd⟩ := hproducts x.roundingInterval.1
  obtain ⟨high, hhigh, hpoint', hhighEnd⟩ := hproducts x.roundingInterval.2.2
  unfold inside Nearest
  dsimp only
  split
  · rw [Bool.and_eq_true, decide_eq_true_eq, decide_eq_true_eq, ← @Nat.cast_le ℚ,
      ← @Nat.cast_le ℚ, hpoint, hlowEnd, mul_le_mul_iff_of_pos_right hlow, ← hpoint, hpoint',
      hhighEnd, mul_le_mul_iff_of_pos_right hhigh]
  · rw [Bool.and_eq_true, decide_eq_true_eq, decide_eq_true_eq, ← @Nat.cast_lt ℚ,
      ← @Nat.cast_lt ℚ, hpoint, hlowEnd, mul_lt_mul_iff_of_pos_right hlow, ← hpoint, hpoint',
      hhighEnd, mul_lt_mul_iff_of_pos_right hhigh]

theorem exists_of_onGrid? {tie : Tie} {x : Double} {power : Int} {d : Decimal}
    (h : x.onGrid? tie power = some d) :
    ∃ digits, x.inside power digits = true ∧ d = ⟨digits, power⟩ := by
  unfold onGrid? at h
  dsimp only at h
  split at h
  · cases h
  · next hlower _ => exact ⟨_, hlower, (Option.some.inj h).symm⟩
  · next hupper => exact ⟨_, hupper, (Option.some.inj h).symm⟩
  · next hlower hupper =>
      split at h
      · exact ⟨_, hlower, (Option.some.inj h).symm⟩
      · exact ⟨_, hupper, (Option.some.inj h).symm⟩

theorem nearest_onGrid? {tie : Tie} {x : Double} {power : Int} {d : Decimal}
    (h : x.onGrid? tie power = some d) : x.Nearest d.value := by
  obtain ⟨digits, hinside, rfl⟩ := exists_of_onGrid? h
  exact (inside_iff x power digits).1 hinside

/-! ## The shortest decimal -/

/-- The magnitude of a double lies in its own rounding interval. -/
theorem nearest_magnitude {x : Double} (hx : x.mantissa ≠ 0) : x.Nearest x.magnitude := by
  have hquarter := unit_pos (x.exponent - 2)
  have hmagnitude : x.magnitude = (4 * x.mantissa : Nat) * unit (x.exponent - 2) := by
    have hunit : unit x.exponent = unit (x.exponent - 2) * 4 := by
      rw [show (4 : ℚ) = unit 2 by norm_num [unit], ← unit_add, sub_add_cancel]
    rw [magnitude, hunit]
    push_cast
    ring
  have hlow : (x.roundingInterval.1 : ℚ) < (4 * x.mantissa : Nat) := by
    refine Nat.cast_lt.2 ?_
    unfold roundingInterval
    dsimp only
    split <;> omega
  have hhigh : ((4 * x.mantissa : Nat) : ℚ) < x.roundingInterval.2.2 := by
    refine Nat.cast_lt.2 ?_
    unfold roundingInterval
    dsimp only
    omega
  have hlow := mul_lt_mul_of_pos_right hlow hquarter
  have hhigh := mul_lt_mul_of_pos_right hhigh hquarter
  rw [hmagnitude]
  unfold Nearest
  split
  · exact ⟨hlow.le, hhigh.le⟩
  · exact ⟨hlow, hhigh⟩

theorem value_exactDecimal (x : Double) : x.exactDecimal.value = x.magnitude := by
  unfold exactDecimal magnitude Decimal.value unit
  split
  · next hwhole =>
      obtain ⟨places, hexponent⟩ := Int.eq_ofNat_of_zero_le hwhole
      simp [hexponent]
  · next hpart =>
      have hexponent : x.exponent = -((-x.exponent).toNat : Int) := by omega
      generalize (-x.exponent).toNat = places at hexponent ⊢
      rw [hexponent, zpow_neg, zpow_neg, zpow_natCast, zpow_natCast,
        show (10 : ℚ) = 5 * 2 by norm_num, mul_pow]
      simp only [Nat.pow_eq, Nat.cast_mul, Nat.cast_pow, Nat.cast_ofNat]
      field_simp

theorem nearest_shortest (tie : Tie) {x : Double} (hx : x.mantissa ≠ 0) :
    x.Nearest (x.shortest tie).value := by
  unfold shortest
  rw [if_neg hx]
  dsimp only
  generalize hfound : (List.findSome? _ (List.range 24)) = found
  cases found with
  | none => simpa [value_exactDecimal] using nearest_magnitude hx
  | some d =>
      obtain ⟨i, -, hi⟩ := List.exists_of_findSome?_eq_some hfound
      exact nearest_onGrid? hi

/-- Numbers that are read as a double are neither beyond the greatest nor below half the least. -/
theorem Nearest.range {x : Double} (hx : x.mantissa ≠ 0) {q : ℚ} (h : x.Nearest q) :
    unit (-1075) ≤ q ∧ q < unit 1024 := by
  obtain ⟨hlow, hhigh, -, -⟩ := h.bounds hx
  obtain ⟨hbound, hleast, hgreatest, -⟩ := x.normal
  have hpos := unit_pos x.exponent
  rw [le_div_iff₀ hpos] at hlow
  rw [div_le_iff₀ hpos] at hhigh
  constructor
  · have hunit := unit_succ (-1075)
    have hone : (1 : ℚ) ≤ x.mantissa := by exact_mod_cast Nat.one_le_iff_ne_zero.2 hx
    have hhalf : 1 / 2 * unit x.exponent ≤ (x.mantissa - 1 / 2) * unit x.exponent :=
      mul_le_mul_of_nonneg_right (by linarith) hpos.le
    have hexponent := unit_le_unit (show -1075 + 1 ≤ x.exponent by omega)
    linarith
  · have hmantissa : (x.mantissa : ℚ) + 1 ≤ bound := by exact_mod_cast hbound
    calc q ≤ (x.mantissa + 1 / 2) * unit x.exponent := hhigh
      _ < bound * unit x.exponent :=
          mul_lt_mul_of_pos_right ((add_lt_add_right (by norm_num) _).trans_le hmantissa) hpos
      _ = unit (x.exponent + 53) := bound_mul_unit x.exponent
      _ ≤ unit 1024 := unit_le_unit (by omega)

/-- A double without digits is zero with a sign. -/
theorem eq_zero {x : Double} (hx : x.mantissa = 0) : x = { zero with negative := x.negative } := by
  obtain ⟨negative, mantissa, exponent, normal⟩ := x
  obtain rfl : mantissa = 0 := hx
  obtain rfl : exponent = -1074 := normal.2.2.2.resolve_left (by decide)
  rfl

end Double

namespace Decimal

open Double (unit unit_le_unit unit_natCast)

/-- The place of the point after a decimal's digits bounds its value. -/
theorem value_bounds {d : Decimal} (hd : d.digits ≠ 0) :
    (10 : ℚ) ^ (d.power + (Nat.toDigits 10 d.digits).length - 1) ≤ d.value ∧
      d.value < 10 ^ (d.power + (Nat.toDigits 10 d.digits).length) := by
  have hpos := Nat.length_toDigits_pos (b := 10) (n := d.digits)
  have hfits := (Nat.length_toDigits_le_iff (b := 10) (by decide) hpos).1 (le_refl _)
  have hneeds : 10 ^ ((Nat.toDigits 10 d.digits).length - 1) ≤ d.digits := by
    rcases Nat.eq_zero_or_pos ((Nat.toDigits 10 d.digits).length - 1) with hzero | hmore
    · rw [hzero]
      omega
    · refine Nat.le_of_not_lt fun hless => ?_
      have := (Nat.length_toDigits_le_iff (b := 10) (by decide) hmore).2 hless
      omega
  generalize (Nat.toDigits 10 d.digits).length = length at *
  have hten : (0 : ℚ) < 10 ^ d.power := by positivity
  constructor
  · rw [show d.power + length - 1 = ((length - 1 : Nat) : Int) + d.power by omega,
      zpow_add₀ (by norm_num), zpow_natCast]
    refine mul_le_mul_of_nonneg_right ?_ hten.le
    exact_mod_cast hneeds
  · rw [add_comm, zpow_add₀ (by norm_num), zpow_natCast]
    refine mul_lt_mul_of_pos_right ?_ hten
    exact_mod_cast hfits

theorem digits_ne_zero_of_nearest {x : Double} (hx : x.mantissa ≠ 0) {d : Decimal}
    (h : x.Nearest d.value) : d.digits ≠ 0 := by
  intro hzero
  have hpos := Double.unit_pos (-1075)
  have hlow := (h.range hx).1
  rw [value, hzero, Nat.cast_zero, zero_mul] at hlow
  linarith

private theorem unit_le_tenth {twos tens : Nat} (h : 2 ^ twos ≤ 10 ^ tens) :
    unit twos ≤ 10 ^ (tens : Int) := by
  rw [unit_natCast, zpow_natCast]
  exact_mod_cast h

/-- A decimal in the rounding interval of a double is read as that double. -/
theorem nearest?_eq_some {x : Double} (hx : x.mantissa ≠ 0) {d : Decimal} (h : x.Nearest d.value) :
    d.nearest? x.negative = some x := by
  obtain ⟨hlow, hhigh⟩ := h.range hx
  have hdigits := digits_ne_zero_of_nearest hx h
  obtain ⟨hleast, hgreatest⟩ := value_bounds hdigits
  unfold nearest?
  dsimp only
  rw [if_neg, if_neg]
  · refine Double.nearest?_eq_some hx (Nat.pow_pos (by decide)) ?_
    convert h using 1
    rw [value, Double.zpow_eq_div (by norm_num)]
    simp only [Nat.pow_eq, Nat.cast_mul, Nat.cast_pow, Nat.cast_ofNat]
    rw [mul_div_assoc]
  · intro hbeyond
    have hfar : (10 : ℚ) ^ (309 : Int) ≤ 10 ^ (d.power + (Nat.toDigits 10 d.digits).length - 1) :=
      zpow_le_zpow_right₀ (by norm_num) (by omega)
    have hten : unit 1024 ≤ 10 ^ (309 : Int) := unit_le_tenth (by decide +kernel)
    linarith
  · rintro (hzero | hbelow)
    · exact hdigits hzero
    · have hnear : (10 : ℚ) ^ (d.power + (Nat.toDigits 10 d.digits).length) ≤ 10 ^ (-330 : Int) :=
        zpow_le_zpow_right₀ (by norm_num) (by omega)
      have hten : (10 : ℚ) ^ (-330 : Int) ≤ unit (-1075) := by
        rw [unit, zpow_neg, zpow_neg]
        exact inv_anti₀ (Double.unit_pos 1075) (unit_le_tenth (by decide +kernel))
      linarith

theorem nearest?_of_digits_eq_zero {d : Decimal} (hd : d.digits = 0) (negative : Bool) :
    d.nearest? negative = some { Double.zero with negative } := by
  unfold nearest?
  rw [if_pos (.inl hd)]

end Decimal

end ContentStore

import ContentStore.Double.Shortest
import Mathlib.Algebra.Order.Field.Rat
import Mathlib.Algebra.Order.Field.Power
import Mathlib.Tactic.Linarith
import Mathlib.Tactic.Ring
import Mathlib.Tactic.Positivity
import Mathlib.Tactic.NormNum

/-!
# Rounding to the nearest double

A quotient in the rounding interval of a double is rounded to that double. The unit of the rounding is
found from the quotient alone; it is the unit of the double, or the next smaller one where the quotient
lies just below a power of two.
-/

namespace ContentStore

namespace Double

/-! ## Powers of two -/

def unit (power : Int) : ℚ :=
  2 ^ power

theorem unit_pos (power : Int) : 0 < unit power := by
  unfold unit
  positivity

theorem unit_add (power n : Int) : unit (power + n) = unit power * unit n :=
  zpow_add₀ two_ne_zero power n

theorem unit_succ (power : Int) : unit (power + 1) = 2 * unit power := by
  rw [unit_add, show unit 1 = 2 from zpow_one 2, mul_comm]

theorem unit_le_unit {low high : Int} (h : low ≤ high) : unit low ≤ unit high :=
  zpow_le_zpow_right₀ one_le_two h

theorem unit_natCast (n : Nat) : unit n = 2 ^ n :=
  zpow_natCast 2 n

theorem leastFull_mul_unit (power : Int) : leastFull * unit power = unit (power + 52) := by
  rw [unit_add, mul_comm, show unit 52 = leastFull by norm_num [unit, leastFull]]

theorem bound_mul_unit (power : Int) : bound * unit power = unit (power + 53) := by
  rw [unit_add, mul_comm, show unit 53 = bound by norm_num [unit, bound]]

/-- A power with an integer exponent as a quotient of powers with natural ones. -/
theorem zpow_eq_div {base : ℚ} (hbase : base ≠ 0) (power : Int) :
    base ^ power = base ^ power.toNat / base ^ (-power).toNat := by
  rw [← zpow_natCast, ← zpow_natCast, ← zpow_sub₀ hbase]
  congr 1
  omega

theorem scaled_eq (n d : Nat) (power : Int) :
    ((scaled n d power).1 : ℚ) / (scaled n d power).2 = n / d / unit power := by
  simp only [scaled, unit, zpow_eq_div two_ne_zero power, Nat.pow_eq, Nat.cast_mul, Nat.cast_pow,
    Nat.cast_ofNat]
  rw [div_div_div_eq]

theorem scaled_pos (n : Nat) {d : Nat} (hd : 0 < d) (power : Int) : 0 < (scaled n d power).2 :=
  Nat.mul_pos hd (Nat.pow_pos (by decide))

/-! ## Rounding to a natural number -/

private theorem roundHalfEven_of_nat {n d m : Nat} (hd : 0 < d)
    (lower : 2 * (m * d) ≤ 2 * n + d) (upper : 2 * n ≤ 2 * (m * d) + d)
    (odd : m % 2 = 1 → 2 * (m * d) < 2 * n + d ∧ 2 * n < 2 * (m * d) + d) :
    roundHalfEven n d = m := by
  have hn := Nat.div_add_mod' n d
  have hr := Nat.mod_lt n hd
  unfold roundHalfEven
  dsimp only
  generalize n / d = whole at hn ⊢
  generalize n % d = rest at hn hr ⊢
  have hlow : whole < m + 1 := by
    refine Nat.lt_of_mul_lt_mul_right (a := d) ?_
    rw [Nat.add_mul]
    omega
  have hhigh : m < whole + 2 := by
    refine Nat.lt_of_mul_lt_mul_right (a := d) ?_
    rw [Nat.add_mul]
    omega
  rcases (by omega : whole = m ∨ m = whole + 1) with rfl | rfl
  · split
    · rfl
    · split
      · omega
      · split
        · rfl
        · have := odd (by omega)
          omega
  · rw [Nat.add_mul] at lower upper odd
    split
    · omega
    · split
      · rfl
      · split
        · have := odd (by omega)
          omega
        · rfl

/-- A quotient at most a half from a natural number, and less than a half if that is odd, rounds to it. -/
theorem roundHalfEven_eq {n d m : Nat} (hd : 0 < d) (lower : (m : ℚ) - 1 / 2 ≤ n / d)
    (upper : (n : ℚ) / d ≤ m + 1 / 2)
    (odd : m % 2 = 1 → (m : ℚ) - 1 / 2 < n / d ∧ (n : ℚ) / d < m + 1 / 2) :
    roundHalfEven n d = m := by
  have hd' : (0 : ℚ) < d := Nat.cast_pos.2 hd
  rw [le_div_iff₀ hd'] at lower
  rw [div_le_iff₀ hd'] at upper
  rw [lt_div_iff₀ hd', div_lt_iff₀ hd'] at odd
  refine roundHalfEven_of_nat hd ?_ ?_ fun h => ⟨?_, ?_⟩
  · have : (2 * (m * d) : ℚ) ≤ 2 * n + d := by linarith
    exact_mod_cast this
  · have : (2 * n : ℚ) ≤ 2 * (m * d) + d := by linarith
    exact_mod_cast this
  · have : (2 * (m * d) : ℚ) < 2 * n + d := by linarith [(odd h).1]
    exact_mod_cast this
  · have : (2 * n : ℚ) < 2 * (m * d) + d := by linarith [(odd h).2]
    exact_mod_cast this

/-! ## The unit of a quotient -/

theorem quotient_bounds {n d : Nat} (hn : n ≠ 0) (hd : d ≠ 0) :
    unit ((Nat.log2 n : Int) - Nat.log2 d - 1) < (n : ℚ) / d ∧
      (n : ℚ) / d < unit ((Nat.log2 n : Int) - Nat.log2 d + 1) := by
  have hnlow : unit (Nat.log2 n) ≤ n := by
    rw [unit_natCast]
    exact_mod_cast Nat.log2_self_le hn
  have hnhigh : (n : ℚ) < unit (Nat.log2 n + 1) := by
    rw [← Nat.cast_succ, unit_natCast]
    exact_mod_cast Nat.lt_log2_self
  have hdlow : unit (Nat.log2 d) ≤ d := by
    rw [unit_natCast]
    exact_mod_cast Nat.log2_self_le hd
  have hdhigh : (d : ℚ) < unit (Nat.log2 d + 1) := by
    rw [← Nat.cast_succ, unit_natCast]
    exact_mod_cast Nat.lt_log2_self
  have hd' : (0 : ℚ) < d := by positivity
  constructor
  · rw [lt_div_iff₀ hd']
    calc unit (Nat.log2 n - Nat.log2 d - 1) * d
        < unit (Nat.log2 n - Nat.log2 d - 1) * unit (Nat.log2 d + 1) :=
          mul_lt_mul_of_pos_left hdhigh (unit_pos _)
      _ = unit (Nat.log2 n) := by rw [← unit_add]; congr 1; omega
      _ ≤ n := hnlow
  · rw [div_lt_iff₀ hd']
    calc (n : ℚ) < unit (Nat.log2 n + 1) := hnhigh
      _ = unit (Nat.log2 n - Nat.log2 d + 1) * unit (Nat.log2 d) := by
          rw [← unit_add]
          congr 1
          omega
      _ ≤ unit (Nat.log2 n - Nat.log2 d + 1) * d :=
          mul_le_mul_of_nonneg_left hdlow (unit_pos _).le

/-- The power of two that a quotient is rounded to multiples of: the quotient has at most 53 binary digits
before the point, and all 53 unless the power is the least. -/
theorem unitPower_spec {n d : Nat} (hn : n ≠ 0) (hd : 0 < d) :
    -1074 ≤ unitPower n d ∧ (n : ℚ) / d < bound * unit (unitPower n d) ∧
      (unitPower n d = -1074 ∨ leastFull * unit (unitPower n d) ≤ (n : ℚ) / d) := by
  obtain ⟨hlow, hhigh⟩ := quotient_bounds hn hd.ne'
  rw [bound_mul_unit, leastFull_mul_unit]
  unfold unitPower
  dsimp only
  generalize hestimate : (Nat.log2 n : Int) - Nat.log2 d - 53 = estimate
  rw [show (Nat.log2 n : Int) - Nat.log2 d - 1 = estimate + 52 by omega] at hlow
  rw [show (Nat.log2 n : Int) - Nat.log2 d + 1 = estimate + 1 + 53 by omega] at hhigh
  -- the whole part of the quotient in units decides between the estimate and the next power
  have hwhole : bound ≤ (scaled n d estimate).1 / (scaled n d estimate).2 ↔
      unit (estimate + 53) ≤ (n : ℚ) / d := by
    have hscaled := scaled_pos n hd estimate
    rw [Nat.le_div_iff_mul_le hscaled, ← bound_mul_unit, ← le_div_iff₀ (unit_pos _), ← scaled_eq,
      le_div_iff₀ (Nat.cast_pos.2 hscaled)]
    exact_mod_cast Iff.rfl
  have hpower : ∃ power, (if bound ≤ (scaled n d estimate).1 / (scaled n d estimate).2 then
      estimate + 1 else estimate) = power ∧ unit (power + 52) ≤ (n : ℚ) / d ∧
        (n : ℚ) / d < unit (power + 53) := by
    split
    · next h => exact ⟨_, rfl, by simpa [add_assoc] using hwhole.1 h, hhigh⟩
    · next h => exact ⟨_, rfl, hlow.le, not_le.1 (mt hwhole.2 h)⟩
  obtain ⟨power, hchosen, hfull, hbelow⟩ := hpower
  rw [hchosen]
  refine ⟨le_max_right _ _, hbelow.trans_le (unit_le_unit (by omega)), ?_⟩
  by_cases hleast : power ≤ -1074
  · exact .inl (by omega)
  · exact .inr (by rwa [show max power (-1074) = power by omega])

/-! ## Rounding to the double itself -/

def magnitude (x : Double) : ℚ :=
  x.mantissa * unit x.exponent

/-- Whether a magnitude lies in the rounding interval of a double, whose ends belong to an even mantissa. -/
def Nearest (x : Double) (q : ℚ) : Prop :=
  if x.mantissa % 2 = 0 then
    x.roundingInterval.1 * unit (x.exponent - 2) ≤ q ∧
      q ≤ x.roundingInterval.2.2 * unit (x.exponent - 2)
  else
    x.roundingInterval.1 * unit (x.exponent - 2) < q ∧
      q < x.roundingInterval.2.2 * unit (x.exponent - 2)

/-- A magnitude nearest to a double is at most half a unit away, less if the mantissa is odd, and less than
half a unit below a power of two, where the doubles are closer. -/
theorem Nearest.bounds {x : Double} (hx : x.mantissa ≠ 0) {q : ℚ} (h : x.Nearest q) :
    (x.mantissa : ℚ) - 1 / 2 ≤ q / unit x.exponent ∧ q / unit x.exponent ≤ x.mantissa + 1 / 2 ∧
      (x.mantissa % 2 = 1 → (x.mantissa : ℚ) - 1 / 2 < q / unit x.exponent ∧
        q / unit x.exponent < x.mantissa + 1 / 2) ∧
      (x.mantissa = leastFull → x.exponent ≠ -1074 →
        (x.mantissa : ℚ) - 1 / 4 ≤ q / unit x.exponent) := by
  have hpos := unit_pos x.exponent
  have hquarter : unit (x.exponent - 2) = unit x.exponent / 4 := by
    rw [sub_eq_add_neg, unit_add, show unit (-2) = 1 / 4 by norm_num [unit]]
    ring
  have hlow : (x.roundingInterval.1 : ℚ) =
      4 * x.mantissa - if x.mantissa = leastFull ∧ x.exponent ≠ -1074 then 1 else 2 := by
    unfold roundingInterval
    dsimp only
    rw [Nat.cast_sub (by split <;> omega)]
    push_cast
    rfl
  have hhigh : (x.roundingInterval.2.2 : ℚ) = 4 * x.mantissa + 2 := by
    unfold roundingInterval
    push_cast
    rfl
  unfold Nearest at h
  rw [hquarter, hlow, hhigh] at h
  rw [le_div_iff₀ hpos, div_le_iff₀ hpos, lt_div_iff₀ hpos, div_lt_iff₀ hpos, le_div_iff₀ hpos]
  generalize hbelow : (if x.mantissa = leastFull ∧ x.exponent ≠ -1074 then (1 : ℚ) else 2) = below
    at h
  have hhalf : below * unit x.exponent ≤ 2 * unit x.exponent := by
    refine mul_le_mul_of_nonneg_right ?_ hpos.le
    rw [← hbelow]
    split <;> norm_num
  have hquarter : x.mantissa = leastFull → x.exponent ≠ -1074 → below = 1 := by
    intro hm he
    rw [← hbelow, if_pos ⟨hm, he⟩]
  split at h
  · next heven =>
      refine ⟨by linarith, by linarith, fun hodd => by omega, fun hm he => ?_⟩
      rw [hquarter hm he] at h
      linarith
  · refine ⟨by linarith, by linarith, fun _ => ⟨by linarith, by linarith⟩, fun hm he => ?_⟩
    rw [hquarter hm he] at h
    linarith

/-- A double's own unit, or the next smaller one just below a power of two, is the unit of every quotient
in its rounding interval. -/
theorem unitPower_of_nearest {x : Double} (hx : x.mantissa ≠ 0) {n d : Nat} (hn : n ≠ 0) (hd : 0 < d)
    (h : x.Nearest (n / d)) :
    unitPower n d = x.exponent ∨
      unitPower n d = x.exponent - 1 ∧ x.mantissa = leastFull ∧ x.exponent ≠ -1074 := by
  obtain ⟨hleast, hbelow, hfull⟩ := unitPower_spec hn hd
  obtain ⟨hlow, hhigh, -, hclose⟩ := h.bounds hx
  obtain ⟨hbound, hmin, -, hnormal⟩ := x.normal
  have hpos := unit_pos x.exponent
  rw [le_div_iff₀ hpos] at hlow hclose
  rw [div_le_iff₀ hpos] at hhigh
  generalize (n : ℚ) / d = q at *
  generalize unitPower n d = power at *
  have hmantissa : (x.mantissa : ℚ) + 1 ≤ bound := by exact_mod_cast hbound
  rcases lt_trichotomy power x.exponent with hlt | heq | hgt
  · right
    have hunit := unit_le_unit (show power + 1 ≤ x.exponent by omega)
    rw [unit_succ] at hunit
    have hlower : (x.mantissa : ℚ) < leastFull + 1 := by
      refine lt_of_mul_lt_mul_right ?_ hpos.le
      norm_num at *
      linarith
    have hm : x.mantissa = leastFull := by
      have : x.mantissa < leastFull + 1 := by exact_mod_cast hlower
      omega
    have he : x.exponent ≠ -1074 := by omega
    refine ⟨le_antisymm (by omega) (not_lt.1 fun hfar => ?_), hm, he⟩
    have hunit := unit_le_unit (show power + 1 + 1 ≤ x.exponent by omega)
    rw [unit_succ, unit_succ] at hunit
    have := hclose hm he
    rw [hm] at this
    norm_num at *
    linarith
  · exact .inl heq
  · have hunit := unit_le_unit (show x.exponent + 1 ≤ power by omega)
    rw [unit_succ] at hunit
    have := hfull.resolve_left (by omega)
    have := mul_le_mul_of_nonneg_right hmantissa hpos.le
    norm_num at *
    linarith

/-- A quotient in the rounding interval of a double is rounded to it. -/
theorem nearest?_eq_some {x : Double} (hx : x.mantissa ≠ 0) {n d : Nat} (hd : 0 < d)
    (h : x.Nearest (n / d)) : nearest? x.negative n d = some x := by
  have hn : n ≠ 0 := by
    intro hzero
    have hlow := (h.bounds hx).1
    have hm : (1 : ℚ) ≤ x.mantissa := by exact_mod_cast Nat.one_le_iff_ne_zero.2 hx
    rw [hzero, Nat.cast_zero, zero_div, zero_div] at hlow
    linarith
  obtain ⟨hlow, hhigh, hodd, hclose⟩ := h.bounds hx
  have hround (m : Nat) := roundHalfEven_eq (n := (scaled n d (unitPower n d)).1) (m := m)
    (scaled_pos n hd (unitPower n d))
  rw [scaled_eq] at hround
  unfold nearest?
  rw [if_neg hn]
  dsimp only
  rcases unitPower_of_nearest hx hn hd h with heq | ⟨heq, hm, he⟩
  · rw [heq] at hround ⊢
    rw [hround x.mantissa hlow hhigh hodd, if_neg x.normal.1.ne]
    exact dif_pos x.normal
  · -- the quotient lies below the power of two and is rounded up to it
    have hbelow := (unitPower_spec hn hd).2.1
    have hunit := unit_succ (x.exponent - 1)
    rw [sub_add_cancel] at hunit
    rw [heq] at hround hbelow ⊢
    have hpos := unit_pos (x.exponent - 1)
    have hclose := hclose hm he
    rw [hunit, hm, le_div_iff₀ (by linarith)] at hclose
    have hrounded : roundHalfEven (scaled n d (x.exponent - 1)).1 (scaled n d (x.exponent - 1)).2 =
        bound := by
      refine hround bound ?_ ?_ fun hodd => absurd hodd (by decide)
      · rw [le_div_iff₀ hpos]
        norm_num at *
        linarith
      · rw [div_le_iff₀ hpos]
        norm_num at *
        linarith
    rw [hrounded, if_pos rfl]
    have hnormal : Normal leastFull (x.exponent - 1 + 1) := by
      rw [sub_add_cancel, ← hm]
      exact x.normal
    rw [dif_pos hnormal]
    simp only [sub_add_cancel, ← hm]

end Double

end ContentStore

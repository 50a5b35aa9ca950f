import ContentStore.Json.Number
import ContentStore.Proofs.Double.Rounding
import Mathlib.Algebra.Order.AbsoluteValue.Basic

/-!
# Rounding gives the closest double

The doubles above and below a given one are a unit away, or half a unit below a power of two. A quotient
that rounds to a double lies at most half that far from it, so that no other double is closer, and one that
is as close has lost to an even mantissa. Every integer of 64 bits has a closest double.
-/

namespace ContentStore

namespace Double

def value (x : Double) : ℚ :=
  if x.negative then -x.magnitude else x.magnitude

theorem magnitude_nonneg (x : Double) : 0 ≤ x.magnitude :=
  mul_nonneg (Nat.cast_nonneg _) (unit_pos _).le

/-! ## Neighbours -/

theorem unit_eq_mul {low high : Int} (h : low ≤ high) :
    unit high = ((2 ^ (high - low).toNat : Nat) : ℚ) * unit low := by
  rw [Nat.cast_pow, Nat.cast_ofNat, ← unit_natCast, ← unit_add]
  congr 1
  omega

theorem magnitude_lt_of_exponent_lt {x y : Double} (h : x.exponent < y.exponent) :
    x.magnitude < y.magnitude := by
  obtain ⟨hbound, hleast, -, -⟩ := x.normal
  have hfull : leastFull ≤ y.mantissa := y.normal.2.2.2.resolve_right (by omega)
  calc x.magnitude < bound * unit x.exponent :=
        mul_lt_mul_of_pos_right (by exact_mod_cast hbound) (unit_pos _)
    _ = unit (x.exponent + 53) := bound_mul_unit _
    _ ≤ unit (y.exponent + 52) := unit_le_unit (by omega)
    _ = leastFull * unit y.exponent := (leastFull_mul_unit _).symm
    _ ≤ y.magnitude := mul_le_mul_of_nonneg_right (by exact_mod_cast hfull) (unit_pos _).le

/-- A magnitude has one mantissa and one power of two. -/
theorem eq_of_magnitude_eq {x y : Double} (h : x.magnitude = y.magnitude) :
    x.mantissa = y.mantissa ∧ x.exponent = y.exponent := by
  have hexponent : x.exponent = y.exponent := by
    rcases lt_trichotomy x.exponent y.exponent with hlt | heq | hgt
    · exact absurd h (magnitude_lt_of_exponent_lt hlt).ne
    · exact heq
    · exact absurd h (magnitude_lt_of_exponent_lt hgt).ne'
  refine ⟨?_, hexponent⟩
  rw [magnitude, magnitude, hexponent] at h
  exact Nat.cast_injective (mul_right_cancel₀ (unit_pos _).ne' h)

theorem magnitude_eq_zero_iff {x : Double} : x.magnitude = 0 ↔ x.mantissa = 0 := by
  rw [magnitude, mul_eq_zero, or_iff_left (unit_pos _).ne', Nat.cast_eq_zero]

/-- Two doubles are compared as the numbers that they stand for. -/
theorem sameValue_iff {x y : Double} : x.sameValue y = true ↔ x.value = y.value := by
  have hsame : x.sameValue y = true ↔ x.mantissa = 0 ∧ y.mantissa = 0 ∨
      (x.negative = y.negative ∧ x.mantissa = y.mantissa) ∧ x.exponent = y.exponent := by
    simp [sameValue]
  rw [hsame]
  constructor
  · rintro (⟨hx, hy⟩ | ⟨⟨hsign, hmantissa⟩, hexponent⟩)
    · rw [value, value, magnitude_eq_zero_iff.2 hx, magnitude_eq_zero_iff.2 hy]
      simp
    · rw [value, value, magnitude, magnitude, hsign, hmantissa, hexponent]
  · intro h
    have hmagnitude : x.magnitude = y.magnitude := by
      have habs (z : Double) : |z.value| = z.magnitude := by
        unfold value
        split
        · rw [abs_neg, abs_of_nonneg z.magnitude_nonneg]
        · rw [abs_of_nonneg z.magnitude_nonneg]
      rw [← habs, ← habs, h]
    obtain ⟨hmantissa, hexponent⟩ := eq_of_magnitude_eq hmagnitude
    by_cases hzero : x.mantissa = 0
    · exact .inl ⟨hzero, hmantissa ▸ hzero⟩
    · refine .inr ⟨⟨?_, hmantissa⟩, hexponent⟩
      have hpos : 0 < x.magnitude :=
        lt_of_le_of_ne x.magnitude_nonneg (Ne.symm (mt magnitude_eq_zero_iff.1 hzero))
      rw [value, value, ← hmagnitude] at h
      cases hx : x.negative <;> cases hy : y.negative <;> simp only [hx, hy] at h ⊢ <;>
        norm_num at h <;> linarith

/-- A double that is greater in magnitude is greater by a unit or more. -/
theorem magnitude_add_unit_le {x y : Double} (h : x.magnitude < y.magnitude) :
    x.magnitude + unit x.exponent ≤ y.magnitude := by
  have hpos := unit_pos x.exponent
  have hle : x.exponent ≤ y.exponent :=
    not_lt.1 fun hlt => (magnitude_lt_of_exponent_lt hlt).not_gt h
  -- the greater one is a multiple of the unit
  have hy : y.magnitude =
      ((y.mantissa * 2 ^ (y.exponent - x.exponent).toNat : Nat) : ℚ) * unit x.exponent := by
    rw [magnitude, unit_eq_mul hle, Nat.cast_mul, mul_assoc]
  rw [hy, magnitude] at h ⊢
  have hlt := Nat.cast_lt.1 (lt_of_mul_lt_mul_right h hpos.le)
  have hsucc : ((x.mantissa + 1 : Nat) : ℚ) * unit x.exponent ≤ _ :=
    mul_le_mul_of_nonneg_right (Nat.cast_le.2 (Nat.succ_le_of_lt hlt)) hpos.le
  rw [Nat.cast_succ] at hsucc
  linarith

/-- A double that is less in magnitude is less by a unit or more, or by half a unit or more below a power
of two. -/
theorem magnitude_add_le {x y : Double} (h : y.magnitude < x.magnitude) :
    y.magnitude + unit x.exponent ≤ x.magnitude ∨
      x.mantissa = leastFull ∧ x.exponent ≠ -1074 ∧
        y.magnitude + unit x.exponent / 2 ≤ x.magnitude := by
  have hpos := unit_pos x.exponent
  have hnext := magnitude_add_unit_le h
  rcases lt_or_ge y.exponent x.exponent with hlt | hge
  · obtain ⟨hybound, hyleast, -, -⟩ := y.normal
    have hfull : leastFull ≤ x.mantissa := x.normal.2.2.2.resolve_right (by omega)
    have hhalf : unit x.exponent = 2 * unit (x.exponent - 1) := by
      rw [← unit_succ, sub_add_cancel]
    have hmantissa : (y.mantissa : ℚ) ≤ bound - 1 := by
      have : (y.mantissa : ℚ) + 1 ≤ bound := by exact_mod_cast hybound
      linarith
    have hy : y.magnitude ≤ (bound - 1) * unit (x.exponent - 1) :=
      mul_le_mul hmantissa (unit_le_unit (by omega)) (unit_pos _).le (by norm_num)
    rcases Nat.eq_or_lt_of_le hfull with heq | hlt
    · refine .inr ⟨heq.symm, by omega, ?_⟩
      have hx : x.magnitude = leastFull * unit x.exponent := by rw [magnitude, heq]
      norm_num at *
      linarith
    · left
      have hx : ((leastFull : ℚ) + 1) * unit x.exponent ≤ x.magnitude :=
        mul_le_mul_of_nonneg_right (by exact_mod_cast hlt) hpos.le
      norm_num at *
      linarith
  · left
    have hunits := unit_le_unit hge
    linarith

/-! ## The closest double -/

/-- No double is closer to the number, and where another one is as close, this one has the even mantissa. -/
structure ClosestTo (x : Double) (q : ℚ) : Prop where
  closest : ∀ y : Double, |x.value - q| ≤ |y.value - q|
  even : ∀ y : Double, |y.value - q| = |x.value - q| → y.value ≠ x.value → x.mantissa % 2 = 0

/-- A double is the one closest to its own value. -/
theorem closestTo_value (x : Double) : x.ClosestTo x.value where
  closest y := by
    rw [sub_self, abs_zero]
    exact abs_nonneg _
  even y hy hne := by
    rw [sub_self, abs_zero, abs_eq_zero, sub_eq_zero] at hy
    exact absurd hy hne

/-- The double closest to a number that some double stands for stands for that number. -/
theorem ClosestTo.value_eq {x y : Double} (h : x.ClosestTo y.value) : x.value = y.value := by
  have hle := h.closest y
  rw [sub_self, abs_zero] at hle
  exact sub_eq_zero.1 (abs_nonpos_iff.1 hle)

/-- A magnitude is at most half a unit away from a mantissa and a power of two, less than that from an odd
mantissa, and at most a quarter below a power of two. -/
structure RoundsTo (mantissa : Nat) (exponent : Int) (q : ℚ) : Prop where
  lower : ((mantissa : ℚ) - 1 / 2) * unit exponent ≤ q
  upper : q ≤ (mantissa + 1 / 2) * unit exponent
  odd : mantissa % 2 = 1 →
    ((mantissa : ℚ) - 1 / 2) * unit exponent < q ∧ q < (mantissa + 1 / 2) * unit exponent
  below : mantissa = leastFull → exponent ≠ -1074 → ((mantissa : ℚ) - 1 / 4) * unit exponent ≤ q

namespace RoundsTo

variable {x : Double} {q : ℚ}

/-- Nothing is closer to a magnitude than the double it rounds to. -/
theorem closest_magnitude (h : RoundsTo x.mantissa x.exponent q) (y : Double) :
    |x.magnitude - q| ≤ |y.magnitude - q| ∧
      (|y.magnitude - q| = |x.magnitude - q| → y.magnitude ≠ x.magnitude → x.mantissa % 2 = 0) := by
  obtain ⟨hlower, hupper, hodd, hbelow⟩ := h
  have hpos := unit_pos x.exponent
  have hx : x.magnitude = x.mantissa * unit x.exponent := rfl
  rw [sub_mul, ← hx] at hlower hbelow
  rw [add_mul, ← hx] at hupper
  rw [sub_mul, add_mul, ← hx] at hodd
  -- the half unit that is missing at an odd mantissa decides between two that are equally close
  have heven : x.magnitude - q = 1 / 2 * unit x.exponent ∨
      q - x.magnitude = 1 / 2 * unit x.exponent → x.mantissa % 2 = 0 := by
    intro hend
    rcases Nat.mod_two_eq_zero_or_one x.mantissa with heven | h
    · exact heven
    · obtain ⟨hlt, hgt⟩ := hodd h
      rcases hend with hend | hend <;> linarith
  rcases lt_trichotomy y.magnitude x.magnitude with hlt | heq | hgt
  · have hy : q - y.magnitude ≤ |y.magnitude - q| := by
      rw [abs_sub_comm]
      exact le_abs_self _
    rcases magnitude_add_le hlt with hgap | ⟨hfull, hleast, hgap⟩
    · refine ⟨(abs_le.2 ⟨by linarith, by linarith⟩).trans hy, fun hequal _ => heven (.inl ?_)⟩
      rcases abs_cases (x.magnitude - q) with ⟨habs, _⟩ | ⟨habs, _⟩ <;> linarith
    · have hquarter := hbelow hfull hleast
      refine ⟨(abs_le.2 ⟨by linarith, by linarith⟩).trans hy, fun _ _ => by rw [hfull]; decide⟩
  · rw [heq]
    exact ⟨le_refl _, fun _ hne => absurd rfl hne⟩
  · have hgap := magnitude_add_unit_le hgt
    have hy := le_abs_self (y.magnitude - q)
    refine ⟨(abs_le.2 ⟨by linarith, by linarith⟩).trans hy, fun hequal _ => heven (.inr ?_)⟩
    rcases abs_cases (x.magnitude - q) with ⟨habs, _⟩ | ⟨habs, _⟩ <;> linarith

/-- Nothing is closer to a number than the double of its sign that its magnitude rounds to. -/
theorem closestTo (h : RoundsTo x.mantissa x.exponent q) (hq : 0 ≤ q) :
    x.ClosestTo (if x.negative then -q else q) := by
  have hown (y : Double) (hy : y.negative = x.negative) :
      |y.value - if x.negative then -q else q| = |y.magnitude - q| := by
    rw [value, hy]
    split
    · rw [neg_sub_neg, abs_sub_comm]
    · rfl
  have hother (y : Double) (hy : y.negative ≠ x.negative) :
      |y.value - if x.negative then -q else q| = y.magnitude + q := by
    have hsum : 0 ≤ y.magnitude + q := add_nonneg y.magnitude_nonneg hq
    rw [value, Bool.eq_not_of_ne hy]
    cases x.negative
    · simp only [Bool.not_false, if_true, Bool.false_eq_true, if_false]
      rw [← neg_add', abs_neg, abs_of_nonneg hsum]
    · simp only [Bool.not_true, if_true, Bool.false_eq_true, if_false, sub_neg_eq_add]
      exact abs_of_nonneg hsum
  -- zero lies between the doubles of the other sign and the number
  obtain ⟨hzero, hzeroEven⟩ := h.closest_magnitude zero
  have hz : zero.magnitude = 0 := magnitude_eq_zero_iff.2 rfl
  rw [hz, zero_sub, abs_neg, abs_of_nonneg hq] at hzero hzeroEven
  constructor
  · intro y
    rw [hown x rfl]
    by_cases hy : y.negative = x.negative
    · rw [hown y hy]
      exact (h.closest_magnitude y).1
    · rw [hother y hy]
      linarith [y.magnitude_nonneg]
  · intro y hequal hne
    rw [hown x rfl] at hequal
    by_cases hy : y.negative = x.negative
    · rw [hown y hy] at hequal
      refine (h.closest_magnitude y).2 hequal fun hm => hne ?_
      rw [value, value, hm, hy]
    · rw [hother y hy] at hequal
      have hyzero : y.magnitude = 0 := by linarith [y.magnitude_nonneg]
      refine hzeroEven (by linarith) fun hx => hne ?_
      rw [value, value, hyzero, ← hx]
      simp

end RoundsTo

/-! ## Rounding a quotient -/

private theorem roundHalfEven_of_div {n d : Nat} (hd : 0 < d) :
    2 * (roundHalfEven n d * d) ≤ 2 * n + d ∧ 2 * n ≤ 2 * (roundHalfEven n d * d) + d ∧
      (roundHalfEven n d % 2 = 1 → 2 * (roundHalfEven n d * d) < 2 * n + d ∧
        2 * n < 2 * (roundHalfEven n d * d) + d) := by
  have hn := Nat.div_add_mod' n d
  have hr := Nat.mod_lt n hd
  unfold roundHalfEven
  dsimp only
  generalize n / d = whole at hn ⊢
  generalize n % d = rest at hn hr ⊢
  have hsucc : (whole + 1) * d = whole * d + d := Nat.succ_mul whole d
  split
  · omega
  · split
    · omega
    · split <;> omega

theorem roundHalfEven_bounds {n d : Nat} (hd : 0 < d) :
    (roundHalfEven n d : ℚ) - 1 / 2 ≤ n / d ∧ (n : ℚ) / d ≤ roundHalfEven n d + 1 / 2 ∧
      (roundHalfEven n d % 2 = 1 → (roundHalfEven n d : ℚ) - 1 / 2 < n / d ∧
        (n : ℚ) / d < roundHalfEven n d + 1 / 2) := by
  obtain ⟨hlower, hupper, hodd⟩ := roundHalfEven_of_div (n := n) hd
  generalize roundHalfEven n d = m at *
  have hd' : (0 : ℚ) < d := Nat.cast_pos.2 hd
  rw [le_div_iff₀ hd', div_le_iff₀ hd', lt_div_iff₀ hd', div_lt_iff₀ hd']
  rw [← @Nat.cast_le ℚ] at hlower hupper
  rw [← @Nat.cast_lt ℚ, ← @Nat.cast_lt ℚ] at hodd
  push_cast at hlower hupper hodd
  exact ⟨by linarith, by linarith, fun h => ⟨by linarith [(hodd h).1], by linarith [(hodd h).2]⟩⟩

/-- What a quotient is rounded to: a mantissa and a power of two near it, which make a double unless the
power is too great. -/
theorem nearest?_eq_dite (negative : Bool) {n d : Nat} (hn : n ≠ 0) (hd : 0 < d) :
    ∃ mantissa exponent, RoundsTo mantissa exponent (n / d) ∧
      (exponent ≤ 971 → Normal mantissa exponent) ∧ exponent ≤ unitPower n d + 1 ∧
      nearest? negative n d = if normal : Normal mantissa exponent then
        some { negative, mantissa, exponent, normal } else none := by
  obtain ⟨hleast, hbelow, hfull⟩ := unitPower_spec hn hd
  obtain ⟨hlower, hupper, hodd⟩ :=
    roundHalfEven_bounds (n := (scaled n d (unitPower n d)).1) (scaled_pos n hd (unitPower n d))
  have hpos := unit_pos (unitPower n d)
  rw [scaled_eq] at hlower hupper hodd
  rw [le_div_iff₀ hpos] at hlower
  rw [div_le_iff₀ hpos] at hupper
  rw [lt_div_iff₀ hpos, div_lt_iff₀ hpos] at hodd
  unfold nearest?
  rw [if_neg hn]
  dsimp only
  generalize roundHalfEven _ _ = rounded at *
  generalize unitPower n d = power at *
  generalize (n : ℚ) / d = q at *
  have hbound : rounded ≤ bound := by
    have hlt := lt_of_mul_lt_mul_right (hlower.trans_lt hbelow) hpos.le
    have hsucc : (rounded : ℚ) < (bound + 1 : Nat) := (sub_lt_iff_lt_add.1 hlt).trans (by norm_num)
    exact Nat.lt_succ_iff.1 (Nat.cast_lt.1 hsucc)
  split
  · next hcarry =>
      -- rounded up to a power of two, whose unit is twice as great
      have hunit := unit_succ power
      rw [hcarry] at hlower
      refine ⟨leastFull, power + 1, ⟨?_, ?_, fun hodd => absurd hodd (by decide), fun _ _ => ?_⟩,
        fun h => ⟨by decide, by omega, h, .inl le_rfl⟩, by omega, rfl⟩
      all_goals
        rw [hunit]
        norm_num at *
        linarith
  · next hne =>
      refine ⟨rounded, power, ⟨hlower, hupper, hodd, fun hm he => ?_⟩,
        fun h => ⟨by omega, hleast, h, ?_⟩, by omega, rfl⟩
      · have := hfull.resolve_left he
        rw [hm]
        norm_num at *
        linarith
      · rcases hfull with heq | hle
        · exact .inr heq
        · left
          have hle := le_of_mul_le_mul_right (hle.trans hupper) hpos
          have hlt : (leastFull : ℚ) < rounded + 1 := by
            norm_num at *
            linarith
          exact Nat.lt_succ_iff.1 (by exact_mod_cast hlt)

/-- A double that a quotient is rounded to has the given sign and is near the quotient. -/
theorem roundsTo_of_nearest? {negative : Bool} {n d : Nat} {x : Double} (hd : 0 < d)
    (h : nearest? negative n d = some x) :
    x.negative = negative ∧ RoundsTo x.mantissa x.exponent (n / d) := by
  by_cases hn : n = 0
  · rw [nearest?, if_pos hn] at h
    cases h
    have hpos := unit_pos (-1074)
    have hzero : RoundsTo 0 (-1074) 0 :=
      ⟨by push_cast; linarith, by push_cast; linarith, fun h => absurd h (by decide),
        fun h => absurd h (by decide)⟩
    simpa [zero, hn] using hzero
  · obtain ⟨mantissa, exponent, hrounds, -, -, heq⟩ := nearest?_eq_dite negative hn hd
    rw [heq] at h
    split at h
    · cases h
      exact ⟨rfl, hrounds⟩
    · cases h

/-! ## Integers -/

theorem exists_ofInt? (n : Json.Integer) : ∃ x, ofInt? n.value = some x := by
  by_cases hzero : n.value.natAbs = 0
  · exact ⟨_, by rw [ofInt?, nearest?, if_pos hzero]⟩
  · obtain ⟨mantissa, exponent, -, hnormal, hexponent, heq⟩ :=
      nearest?_eq_dite (decide (n.value < 0)) hzero Nat.one_pos
    have hpower : unitPower n.value.natAbs 1 ≤ 970 := by
      by_contra hgreat
      have hfull := (unitPower_spec hzero Nat.one_pos).2.2.resolve_left (by omega)
      have hsize : (n.value.natAbs : ℚ) ≤ 18446744073709551615 := by
        have := n.lower
        have := n.upper
        exact_mod_cast (show n.value.natAbs ≤ 18446744073709551615 by omega)
      have hunit := unit_le_unit (show 12 ≤ unitPower n.value.natAbs 1 by omega)
      rw [show unit 12 = 4096 by norm_num [unit]] at hunit
      norm_num at *
      linarith
    exact ⟨_, by rw [ofInt?, heq, dif_pos (hnormal (by omega))]⟩

/-- An integer becomes the double closest to it. -/
theorem closestTo_of_ofInt? {n : Int} {x : Double} (h : ofInt? n = some x) : x.ClosestTo n := by
  obtain ⟨hsign, hrounds⟩ := roundsTo_of_nearest? Nat.one_pos h
  have hclosest := hrounds.closestTo (by positivity)
  have hvalue : (if x.negative then -((n.natAbs : ℚ) / (1 : Nat)) else (n.natAbs : ℚ) / (1 : Nat)) =
      n := by
    rw [hsign, Nat.cast_one, div_one]
    by_cases hn : n < 0
    · have : (n.natAbs : Int) = -n := by omega
      rw [decide_eq_true hn, if_pos rfl, ← Int.cast_natCast, this, Int.cast_neg, neg_neg]
    · have : (n.natAbs : Int) = n := by omega
      rw [decide_eq_false hn, if_neg Bool.false_ne_true, ← Int.cast_natCast, this]
  rwa [hvalue] at hclosest

end Double

end ContentStore

import Ibm704.Proofs.FloatWords

/-!
# Rounding to floating point words

A double is brought to the 27 places of a fraction, and halves go up.  A fraction that
is rounded up to the next power of two loses its last place, which is 0, and the
characteristic takes one more.  So a word stands for the nearest multiple of the last
place of the double, as long as the characteristic has room for its exponent.
-/

namespace Ibm704

/-!
# Nearest multiples

The integer nearest to a number is found by adding one half and dropping the fraction.
-/

/-- `r` is the multiple of the unit that is nearest to `x`, and the greater one of two. -/
structure NearestMultiple (unit x r : ℚ) : Prop where
  multiple : ∃ n : ℤ, r = n * unit
  nearest : ∀ n : ℤ, |x - r| ≤ |x - n * unit|
  up : ∀ n : ℤ, |x - n * unit| = |x - r| → n * unit ≤ r

theorem floor_add_half_bounds {x : ℚ} (hx : 0 ≤ x) :
    |x - ⌊x + 1 / 2⌋₊| ≤ 1 / 2 ∧ x + 1 / 2 < ⌊x + 1 / 2⌋₊ + 1 := by
  have hbelow : (⌊x + 1 / 2⌋₊ : ℚ) ≤ x + 1 / 2 := Nat.floor_le (by linarith)
  have habove : x + 1 / 2 < ⌊x + 1 / 2⌋₊ + 1 := Nat.lt_floor_add_one _
  exact ⟨abs_le.mpr ⟨by linarith, by linarith⟩, habove⟩

theorem floor_add_half_nearest {x : ℚ} (hx : 0 ≤ x) (n : ℤ) :
    |x - ⌊x + 1 / 2⌋₊| ≤ |x - n| ∧ (|x - n| = |x - ⌊x + 1 / 2⌋₊| → n ≤ ⌊x + 1 / 2⌋₊) := by
  obtain ⟨hnear, habove⟩ := floor_add_half_bounds hx
  generalize ⌊x + 1 / 2⌋₊ = r at hnear habove ⊢
  have hgap := abs_le.mp hnear
  rcases lt_trichotomy n r with hless | rfl | hmore
  · have hstep : (n : ℚ) + 1 ≤ r := by exact_mod_cast Int.add_one_le_of_lt hless
    refine ⟨hnear.trans ?_, fun _ => hless.le⟩
    exact le_trans (by linarith) (le_abs_self _)
  · exact ⟨by simp, fun _ => le_rfl⟩
  · have hstep : (r : ℚ) + 1 ≤ n := by exact_mod_cast Int.add_one_le_of_lt hmore
    have hfar : 1 / 2 < |x - n| := by
      rw [abs_sub_comm]
      exact lt_of_lt_of_le (by linarith) (le_abs_self _)
    exact ⟨hnear.trans hfar.le, fun hequal => absurd (hequal.trans_le hnear) hfar.not_ge⟩

section Units

variable {unit x : ℚ}

theorem abs_sub_mul_unit (hunit : 0 < unit) (q : ℚ) : |x - q * unit| = |x / unit - q| * unit := by
  have hparts : x - q * unit = (x / unit - q) * unit := by
    rw [sub_mul, div_mul_cancel₀ _ hunit.ne']
  rw [hparts, abs_mul, abs_of_pos hunit]

theorem nearestMultiple_floor (hunit : 0 < unit) (hx : 0 ≤ x) :
    NearestMultiple unit x (⌊x / unit + 1 / 2⌋₊ * unit) := by
  have hnearest := floor_add_half_nearest (div_nonneg hx hunit.le)
  refine ⟨⟨⌊x / unit + 1 / 2⌋₊, rfl⟩, ?_, ?_⟩
  · intro n
    rw [abs_sub_mul_unit hunit, abs_sub_mul_unit hunit]
    exact mul_le_mul_of_nonneg_right (hnearest n).1 hunit.le
  · intro n hequal
    rw [abs_sub_mul_unit hunit, abs_sub_mul_unit hunit] at hequal
    have hle := (hnearest n).2 (mul_right_cancel₀ hunit.ne' hequal)
    exact mul_le_mul_of_nonneg_right (by exact_mod_cast hle) hunit.le

theorem abs_sub_floor_le (hunit : 0 < unit) (hx : 0 ≤ x) :
    |x - ⌊x / unit + 1 / 2⌋₊ * unit| ≤ 1 / 2 * unit := by
  rw [abs_sub_mul_unit hunit]
  exact mul_le_mul_of_nonneg_right (floor_add_half_bounds (div_nonneg hx hunit.le)).1 hunit.le

end Units

namespace FloatWord

/-!
# Exponents

The exponent is that of the least power of two above the number.
-/

section Exponents

variable {d : Double}

theorem exponentOf_bounds (h : d.significand ≠ 0) :
    (2 : ℚ) ^ (exponentOf d - 1) ≤ d.value ∧ d.value < 2 ^ exponentOf d := by
  refine ⟨?_, d.value_lt⟩
  have hlength : 0 < bitLength d.significand := lt_bitLength_iff.mpr (Nat.pos_of_ne_zero h)
  obtain ⟨k, hk⟩ : ∃ k, bitLength d.significand = k + 1 := Nat.exists_eq_add_one.mpr hlength
  have hfirst : (2 : ℚ) ^ (k : Int) ≤ d.significand := by
    exact_mod_cast lt_bitLength_iff.mp (show k < bitLength d.significand by omega)
  have hexponent : exponentOf d - 1 = k + d.exponent := by
    rw [exponentOf, hk]
    push_cast
    ring
  rw [hexponent, zpow_add₀ two_ne_zero, Double.value]
  gcongr

theorem significand_ne_zero (h : 0 < d.value) : d.significand ≠ 0 := by
  intro hzero
  rw [Double.value, hzero, Nat.cast_zero, zero_mul] at h
  exact lt_irrefl _ h

theorem two_zpow_lt_iff {a b : Int} : (2 : ℚ) ^ a < 2 ^ b ↔ a < b :=
  zpow_lt_zpow_iff_right₀ one_lt_two

theorem exponentOf_eq {e : Int} (hlow : (2 : ℚ) ^ (e - 1) ≤ d.value) (hhigh : d.value < 2 ^ e) :
    exponentOf d = e := by
  have hsome : d.significand ≠ 0 := significand_ne_zero (lt_of_lt_of_le (by positivity) hlow)
  obtain ⟨hleast, hmost⟩ := exponentOf_bounds hsome
  have hbelow := two_zpow_lt_iff.mp (hlow.trans_lt hmost)
  have habove := two_zpow_lt_iff.mp (hleast.trans_lt hhigh)
  omega

theorem value_nonneg (d : Double) : 0 ≤ d.value := by
  unfold Double.value
  positivity

/-!
# Fractions

The fraction is the number in units of its last place, rounded.
-/

theorem roundedFraction_eq (d : Double) :
    roundedFraction d = ⌊d.value / 2 ^ (exponentOf d - 27) + 1 / 2⌋₊ := by
  have hplaces : d.value / 2 ^ (exponentOf d - 27) =
      d.significand * 2 ^ (27 - (bitLength d.significand : Int)) := by
    rw [Double.value, mul_div_assoc, ← zpow_sub₀ two_ne_zero, exponentOf]
    congr 2
    ring
  rw [hplaces, ← Double.roundUp_eq_floor]
  rfl

theorem roundedFraction_bounds (h : d.significand ≠ 0) :
    2 ^ 26 ≤ roundedFraction d ∧ roundedFraction d ≤ 2 ^ 27 := by
  obtain ⟨hlow, hhigh⟩ := exponentOf_bounds h
  have hunit : (0 : ℚ) < 2 ^ (exponentOf d - 27) := by positivity
  have hleast : ((2 ^ 26 : Nat) : ℚ) ≤ d.value / 2 ^ (exponentOf d - 27) := by
    rw [le_div_iff₀ hunit, Nat.cast_pow, Nat.cast_ofNat, ← zpow_natCast, ← zpow_add₀ two_ne_zero]
    refine le_trans (le_of_eq ?_) hlow
    congr 1
    push_cast
    ring
  have hmost : d.value / 2 ^ (exponentOf d - 27) < ((2 ^ 27 : Nat) : ℚ) := by
    rw [div_lt_iff₀ hunit, Nat.cast_pow, Nat.cast_ofNat, ← zpow_natCast, ← zpow_add₀ two_ne_zero]
    refine lt_of_lt_of_eq hhigh ?_
    congr 1
    push_cast
    ring
  rw [roundedFraction_eq]
  constructor
  · exact Nat.le_floor (by linarith)
  · apply Nat.le_of_lt_succ
    rw [Nat.floor_lt' (by decide), Nat.cast_succ]
    linarith

/-!
# Normal form

A fraction that is rounded up to its limit is brought into normal form again, which
does not change the number.
-/

def characteristicOf (d : Double) : Int :=
  if roundedFraction d = fractionLimit then exponentOf d + 129 else exponentOf d + 128

def fractionOf (d : Double) : Nat :=
  if roundedFraction d = fractionLimit then fractionLimit / 2 else roundedFraction d

theorem encode_eq_compose (h : d.significand ≠ 0) :
    encode d = compose (characteristicOf d) (fractionOf d) := by
  unfold encode characteristicOf fractionOf
  rw [if_neg h]
  split <;> rfl

theorem fractionOf_bounds (h : d.significand ≠ 0) :
    2 ^ 26 ≤ fractionOf d ∧ fractionOf d < 2 ^ 27 := by
  obtain ⟨hlow, hhigh⟩ := roundedFraction_bounds h
  unfold fractionOf
  split
  · decide
  · rename_i hless
    exact ⟨hlow, lt_of_le_of_ne hhigh hless⟩

theorem value_of_parts (d : Double) :
    (fractionOf d : ℚ) * 2 ^ (characteristicOf d - 155) =
      roundedFraction d * 2 ^ (exponentOf d - 27) := by
  unfold fractionOf characteristicOf
  split
  · rename_i hcarry
    have hexponent : exponentOf d + 129 - 155 = exponentOf d - 27 + 1 := by ring
    have hhalf : ((fractionLimit / 2 : Nat) : ℚ) * 2 = (fractionLimit : ℚ) := by
      exact_mod_cast (show fractionLimit / 2 * 2 = fractionLimit by decide)
    rw [hcarry, hexponent, zpow_add_one₀ two_ne_zero, ← hhalf]
    ring
  · have hexponent : exponentOf d + 128 - 155 = exponentOf d - 27 := by ring
    rw [hexponent]

/-!
# The range of characteristics

Only the greatest exponent leaves it to the fraction whether the characteristic is in
range.
-/

theorem characteristicOf_nonneg (h : (2 : ℚ) ^ (-129 : Int) ≤ d.value) :
    0 ≤ characteristicOf d := by
  have hexponent := two_zpow_lt_iff.mp (h.trans_lt d.value_lt)
  have hleast : -128 ≤ exponentOf d := by
    rw [exponentOf]
    omega
  unfold characteristicOf
  split <;> omega

/-- The least number that is rounded to a power of two beyond the greatest characteristic. -/
def limit : ℚ :=
  2 ^ 127 - 2 ^ 99

theorem limit_eq_mul : limit = (((2 ^ 27 : Nat) : ℚ) - 1 / 2) * 2 ^ (100 : Int) := by
  unfold limit
  norm_num

theorem characteristicOf_le_iff (h : d.significand ≠ 0) :
    characteristicOf d ≤ 255 ↔ d.value < limit := by
  obtain ⟨hlow, hhigh⟩ := exponentOf_bounds h
  obtain ⟨_, hmost⟩ := roundedFraction_bounds h
  rcases lt_trichotomy (exponentOf d) 127 with hless | hequal | hmore
  · refine iff_of_true (by unfold characteristicOf; split <;> omega) ?_
    calc d.value < 2 ^ exponentOf d := hhigh
      _ ≤ 2 ^ (126 : Int) := Double.two_zpow_le_iff.mpr (by omega)
      _ ≤ limit := by
        unfold limit
        norm_num
  · have hcarry : roundedFraction d < fractionLimit ↔ d.value < limit := by
      have hunit : (0 : ℚ) < 2 ^ (100 : Int) := by positivity
      rw [roundedFraction_eq, hequal, show (127 : Int) - 27 = 100 by norm_num,
        Nat.floor_lt' (by decide), fractionLimit_eq, limit_eq_mul, ← div_lt_iff₀ hunit,
        lt_sub_iff_add_lt]
    rw [← hcarry, fractionLimit_eq]
    unfold characteristicOf
    rw [fractionLimit_eq, hequal]
    split <;> omega
  · refine iff_of_false (by unfold characteristicOf; split <;> omega) (not_lt.mpr ?_)
    calc limit ≤ 2 ^ (127 : Int) := by
          unfold limit
          norm_num
      _ ≤ 2 ^ (exponentOf d - 1) := Double.two_zpow_le_iff.mpr (by omega)
      _ ≤ d.value := hlow

/-!
# Reading what was written

The word that is written reads as the nearest multiple of the unit of its last place.
-/

theorem decode_compose {characteristic : Int} {fraction : Nat} (hleast : 0 ≤ characteristic)
    (hmost : characteristic ≤ 255) (hfraction : fraction < 2 ^ 27) :
    decode (compose characteristic fraction) = ⟨fraction, characteristic - 155⟩ := by
  obtain ⟨c, rfl⟩ := Int.eq_ofNat_of_zero_le hleast
  have hkept : (c : Int).toNat % 256 = c := by omega
  have hparts : (c * 2 ^ 27 + fraction) % 2 ^ 27 = fraction ∧
      (c * 2 ^ 27 + fraction) / 2 ^ 27 % 256 = c := by omega
  unfold compose decode
  rw [if_neg (by omega), hkept, fractionLimit_eq]
  dsimp only
  rw [hparts.1, hparts.2]

theorem value_decode_encode (h : d.significand ≠ 0) (hleast : (2 : ℚ) ^ (-129 : Int) ≤ d.value)
    (hmost : d.value < limit) :
    (decode (encode d)).value =
      ⌊d.value / 2 ^ (exponentOf d - 27) + 1 / 2⌋₊ * 2 ^ (exponentOf d - 27) := by
  rw [encode_eq_compose h, decode_compose (characteristicOf_nonneg hleast)
    ((characteristicOf_le_iff h).mpr hmost) (fractionOf_bounds h).2, Double.value]
  dsimp only
  rw [value_of_parts, roundedFraction_eq]

theorem encode_parts (h : d.significand ≠ 0) (hleast : (2 : ℚ) ^ (-129 : Int) ≤ d.value) :
    encode d < 2 ^ 35 ∧ (encode d).testBit 26 = true := by
  have hnonneg := characteristicOf_nonneg hleast
  have hfraction := fractionOf_bounds h
  have hkept : (characteristicOf d).toNat % 256 < 256 := Nat.mod_lt _ (by decide)
  rw [encode_eq_compose h, compose, if_neg (by omega), fractionLimit_eq,
    Nat.testBit_eq_decide_div_mod_eq, decide_eq_true_iff]
  omega

end Exponents

/-- Between the least and the greatest number in normal form, a double is written as the word that
stands for the nearest multiple of the last place of its fraction, halves going up. -/
theorem doubles_rounded_to_nearest (d : Double) (e : Int)
    (hleast : (2 : ℚ) ^ (-129 : Int) ≤ d.value) (hmost : d.value < 2 ^ 127 - 2 ^ 99)
    (hlow : (2 : ℚ) ^ (e - 1) ≤ d.value) (hhigh : d.value < 2 ^ e) :
    encode d < 2 ^ 35 ∧ (encode d).testBit 26 = true ∧
      NearestMultiple (2 ^ (e - 27)) d.value (decode (encode d)).value ∧
      |d.value - (decode (encode d)).value| ≤ 2 ^ (e - 28) := by
  have hsome : d.significand ≠ 0 := significand_ne_zero (lt_of_lt_of_le (by positivity) hleast)
  have hunit : (0 : ℚ) < 2 ^ (e - 27) := by positivity
  have hhalf : (1 / 2 : ℚ) * 2 ^ (e - 27) = 2 ^ (e - 28) := by
    rw [show e - 27 = e - 28 + 1 by ring, zpow_add_one₀ two_ne_zero]
    ring
  obtain ⟨hsmall, hbit⟩ := encode_parts hsome hleast
  rw [value_decode_encode hsome hleast hmost, exponentOf_eq hlow hhigh, ← hhalf]
  exact ⟨hsmall, hbit, nearestMultiple_floor hunit (value_nonneg d),
    abs_sub_floor_le hunit (value_nonneg d)⟩

/-- One half of the last place below a power of two: the fraction goes up to its limit. -/
theorem doubles_rounded_to_nearest_carry :
    let d : Double := ⟨2 ^ 28 - 1, 0⟩
    (2 : ℚ) ^ (-129 : Int) ≤ d.value ∧ d.value < 2 ^ 127 - 2 ^ 99 ∧
      (2 : ℚ) ^ ((28 : Int) - 1) ≤ d.value ∧ d.value < 2 ^ (28 : Int) ∧
      (decode (encode d)).value = 2 ^ 28 ∧
      NearestMultiple (2 ^ ((28 : Int) - 27)) d.value (decode (encode d)).value := by
  intro d
  have hvalue : d.value = 2 ^ 28 - 1 := by
    norm_num [d, Double.value]
  have hrange : (2 : ℚ) ^ (-129 : Int) ≤ d.value ∧ d.value < 2 ^ 127 - 2 ^ 99 ∧
      (2 : ℚ) ^ ((28 : Int) - 1) ≤ d.value ∧ d.value < 2 ^ (28 : Int) := by
    rw [hvalue]
    norm_num
  have hword : decode (encode d) = ⟨2 ^ 26, 2⟩ := by decide
  obtain ⟨hleast, hmost, hlow, hhigh⟩ := hrange
  refine ⟨hleast, hmost, hlow, hhigh, ?_,
    (doubles_rounded_to_nearest d 28 hleast hmost hlow hhigh).2.2.1⟩
  rw [hword]
  norm_num [Double.value]

end FloatWord
end Ibm704

import Mathlib.Algebra.Order.Field.Power
import Mathlib.Algebra.Order.Floor.Semifield
import Mathlib.Data.Rat.Floor
import Mathlib.Tactic.FieldSimp
import Mathlib.Tactic.Linarith
import Mathlib.Tactic.NormNum
import Mathlib.Tactic.Positivity
import Mathlib.Tactic.Ring
import Ibm704.Number.Double

/-!
# Doubles and the numbers that they stand for

Rounding is measured against exact rational numbers.  A quotient is brought to 53
places or to the least exponent, whichever leaves less of it, so the quotients that
have no double are those from halfway between the greatest double and the next power
of two on.  Integers of 53 places are doubles themselves.
-/

namespace Ibm704

theorem bitLength_le_iff {n k : Nat} : bitLength n ≤ k ↔ n < 2 ^ k := by
  unfold bitLength
  split
  · rename_i hzero
    rw [hzero]
    exact iff_of_true (Nat.zero_le k) (Nat.two_pow_pos k)
  · rename_i hsome
    exact Nat.succ_le_iff.trans (Nat.log2_lt hsome)

theorem lt_bitLength_iff {n k : Nat} : k < bitLength n ↔ 2 ^ k ≤ n := by
  rw [← Nat.not_le, bitLength_le_iff, Nat.not_lt]

namespace Double

def value (d : Double) : ℚ :=
  d.significand * 2 ^ d.exponent

/-!
# Rounding to integers

Rounding is characterised by distances: no integer is nearer, and an even one is taken
where two are as near.
-/

theorem roundUp_eq_floor (n : Nat) (places : Int) :
    roundUp n places = ⌊(n : ℚ) * 2 ^ places + 1 / 2⌋₊ := by
  cases places with
  | ofNat k =>
      have hcast : (n : ℚ) * 2 ^ Int.ofNat k + 1 / 2 = 1 / 2 + ((n <<< k : Nat) : ℚ) := by
        rw [Nat.shiftLeft_eq, Int.ofNat_eq_natCast, zpow_natCast]
        push_cast
        ring
      have hhalf : ⌊(1 / 2 : ℚ)⌋₊ = 0 := Nat.floor_eq_zero.mpr (by norm_num)
      rw [hcast, Nat.floor_add_natCast (by norm_num), hhalf, Nat.zero_add]
      rfl
  | negSucc k =>
      have hcast : (n : ℚ) * (2 : ℚ) ^ Int.negSucc k + (1 / 2 : ℚ) =
          ((n + 1 <<< k : Nat) : ℚ) / ((2 ^ (k + 1) : Nat) : ℚ) := by
        rw [Nat.one_shiftLeft, zpow_negSucc]
        push_cast
        field_simp
        ring
      rw [hcast, Nat.floor_div_eq_div, ← Nat.shiftRight_eq_div_pow]
      rfl

/-- The integer is nearest to the number, and it is even if another one is as near. -/
structure Nearest (q : ℚ) (r : Nat) : Prop where
  near : |q - r| ≤ 1 / 2
  even : |q - r| = 1 / 2 → r % 2 = 0

theorem nearest_below {n : Nat} {part : ℚ} (hnonneg : 0 ≤ part) (hhalf : part ≤ 1 / 2)
    (heven : part = 1 / 2 → n % 2 = 0) : Nearest (n + part) n := by
  have hgap : |(n : ℚ) + part - n| = part := by
    rw [add_sub_cancel_left, abs_of_nonneg hnonneg]
  exact ⟨hgap.trans_le hhalf, fun htie => heven (hgap.symm.trans htie)⟩

theorem nearest_above {n : Nat} {part : ℚ} (hhalf : 1 / 2 ≤ part) (hless : part < 1)
    (heven : part = 1 / 2 → (n + 1) % 2 = 0) : Nearest (n + part) (n + 1) := by
  have hgap : |(n : ℚ) + part - (n + 1 : Nat)| = 1 - part := by
    have hminus : (n : ℚ) + part - (n + 1 : Nat) = -(1 - part) := by
      push_cast
      ring
    rw [hminus, abs_neg, abs_of_nonneg (by linarith)]
  constructor
  · rw [hgap]
    linarith
  · rw [hgap]
    intro htie
    exact heven (by linarith)

theorem nearest_roundToEven (num : Nat) {den : Nat} (hden : 0 < den) :
    Nearest ((num : ℚ) / den) (roundToEven num den) := by
  have hpositive : (0 : ℚ) < den := by exact_mod_cast hden
  obtain ⟨part, hpart⟩ : ∃ part : ℚ, part = ((num % den : Nat) : ℚ) / den := ⟨_, rfl⟩
  have hparts : (num : ℚ) / den = (num / den : Nat) + part := by
    have hnum : (num : ℚ) = den * (num / den : Nat) + (num % den : Nat) := by
      exact_mod_cast (Nat.div_add_mod num den).symm
    rw [hpart, div_eq_iff hpositive.ne', add_mul, div_mul_cancel₀ _ hpositive.ne', mul_comm]
    exact hnum
  have habove : 1 / 2 < part ↔ den < 2 * (num % den) := by
    rw [hpart, div_lt_div_iff₀ (by norm_num) hpositive, one_mul, mul_comm]
    exact_mod_cast Iff.rfl
  have htie : part = 1 / 2 ↔ 2 * (num % den) = den := by
    rw [hpart, div_eq_div_iff hpositive.ne' (by norm_num), one_mul, mul_comm]
    exact_mod_cast Iff.rfl
  rw [hparts]
  unfold roundToEven
  dsimp only
  split
  · rename_i hup
    have hhalf : 1 / 2 ≤ part := by
      rcases hup with hmore | ⟨hequal, _⟩
      · exact (habove.mpr hmore).le
      · exact (htie.mpr hequal).ge
    have hless : part < 1 := by
      rw [hpart, div_lt_one hpositive]
      exact_mod_cast Nat.mod_lt num hden
    refine nearest_above hhalf hless fun hequal => ?_
    have hrest := htie.mp hequal
    omega
  · rename_i hdown
    have hhalf : part ≤ 1 / 2 := by
      rw [← not_lt, habove]
      exact fun hmore => hdown (.inl hmore)
    refine nearest_below (hpart ▸ by positivity) hhalf fun hequal => ?_
    have hrest := htie.mp hequal
    omega

section Nearest

variable {q : ℚ} {r : Nat}

theorem Nearest.le_of_lt (h : Nearest q r) {k : Nat} (hq : q < k) : r ≤ k := by
  have hnear := (abs_le.mp h.near).1
  have hless : (r : ℚ) < (k + 1 : Nat) := by
    push_cast
    linarith
  exact Nat.le_of_lt_succ (by exact_mod_cast hless)

theorem Nearest.ge_of_ge (h : Nearest q r) {k : Nat} (hq : k ≤ q) : k ≤ r := by
  have hnear := (abs_le.mp h.near).2
  have hless : (k : ℚ) < (r + 1 : Nat) := by
    push_cast
    linarith
  exact Nat.le_of_lt_succ (by exact_mod_cast hless)

theorem Nearest.lt_iff (h : Nearest q r) {k : Nat} (hk : k % 2 = 0) : r < k ↔ q < k - 1 / 2 := by
  have hnear := abs_le.mp h.near
  constructor
  · intro hless
    have hbelow : (r : ℚ) ≤ k - 1 := by
      have hnext : ((r + 1 : Nat) : ℚ) ≤ k := by exact_mod_cast hless
      push_cast at hnext
      linarith
    by_contra hq
    have htie : q - r = 1 / 2 ∧ (r : ℚ) = k - 1 := by
      constructor <;> linarith
    have heven := h.even (by rw [htie.1]; norm_num)
    have hodd : r + 1 = k := by
      have hcast : ((r + 1 : Nat) : ℚ) = k := by
        push_cast
        linarith
      exact_mod_cast hcast
    omega
  · intro hq
    have hless : (r : ℚ) < k := by linarith
    exact_mod_cast hless

theorem Nearest.eq_of_natCast {n : Nat} (h : Nearest n r) : r = n := by
  have hnear := abs_le.mp h.near
  have hless : (n : ℚ) < (r + 1 : Nat) ∧ (r : ℚ) < (n + 1 : Nat) := by
    push_cast
    constructor <;> linarith
  have hnat : n < r + 1 ∧ r < n + 1 := by exact_mod_cast hless
  omega

end Nearest

/-!
# Doubles of quotients

The lengths of numerator and denominator give the exponent up to one, and the last
place that is kept follows from it.  Only numbers with the exponent of the greatest
double may be too large.
-/

section Quotients

variable {num den : Nat}

theorem log2_sub_log2_bounds (hnum : num ≠ 0) (hden : den ≠ 0) :
    (2 : ℚ) ^ ((num.log2 : Int) - den.log2 - 1) ≤ num / den ∧
      (num : ℚ) / den < 2 ^ ((num.log2 : Int) - den.log2 + 1) := by
  have hpositive : (0 : ℚ) < den := by exact_mod_cast Nat.pos_of_ne_zero hden
  have hnumLow : (2 : ℚ) ^ (num.log2 : Int) ≤ num := by
    exact_mod_cast Nat.log2_self_le hnum
  have hnumHigh : (num : ℚ) < 2 ^ ((num.log2 : Int) + 1) := by
    exact_mod_cast Nat.lt_log2_self (n := num)
  have hdenLow : (2 : ℚ) ^ (den.log2 : Int) ≤ den := by
    exact_mod_cast Nat.log2_self_le hden
  have hdenHigh : (den : ℚ) < 2 ^ ((den.log2 : Int) + 1) := by
    exact_mod_cast Nat.lt_log2_self (n := den)
  constructor
  · rw [le_div_iff₀ hpositive]
    calc (2 : ℚ) ^ ((num.log2 : Int) - den.log2 - 1) * den
        ≤ 2 ^ ((num.log2 : Int) - den.log2 - 1) * 2 ^ ((den.log2 : Int) + 1) := by gcongr
      _ = 2 ^ (num.log2 : Int) := by
        rw [← zpow_add₀ two_ne_zero]
        congr 1
        ring
      _ ≤ num := hnumLow
  · rw [div_lt_iff₀ hpositive]
    calc (num : ℚ) < 2 ^ ((num.log2 : Int) + 1) := hnumHigh
      _ = 2 ^ ((num.log2 : Int) - den.log2 + 1) * 2 ^ (den.log2 : Int) := by
        rw [← zpow_add₀ two_ne_zero]
        congr 1
        ring
      _ ≤ 2 ^ ((num.log2 : Int) - den.log2 + 1) * den := by gcongr

theorem floorLog2_spec (hnum : num ≠ 0) (hden : den ≠ 0) :
    (2 : ℚ) ^ floorLog2 num den ≤ num / den ∧
      (num : ℚ) / den < 2 ^ (floorLog2 num den + 1) := by
  have hpositive : (0 : ℚ) < den := by exact_mod_cast Nat.pos_of_ne_zero hden
  rcases log2_sub_log2_bounds hnum hden with ⟨habove, hbelow⟩
  unfold floorLog2
  dsimp only
  generalize (num.log2 : Int) - den.log2 = guess at hbelow habove ⊢
  have hreached : ∀ reached : Bool, (reached = true ↔ (2 : ℚ) ^ guess ≤ num / den) →
      (2 : ℚ) ^ (if reached then guess else guess - 1) ≤ num / den ∧
        (num : ℚ) / den < 2 ^ ((if reached then guess else guess - 1) + 1) := by
    intro reached hmeaning
    by_cases htrue : reached = true
    · rw [if_pos htrue]
      exact ⟨hmeaning.mp htrue, hbelow⟩
    · rw [if_neg htrue, sub_add_cancel]
      exact ⟨habove, not_le.mp (mt hmeaning.mpr htrue)⟩
  apply hreached
  cases guess with
  | ofNat k =>
      rw [decide_eq_true_iff, le_div_iff₀ hpositive, Nat.shiftLeft_eq, Int.ofNat_eq_natCast,
        zpow_natCast, mul_comm]
      exact_mod_cast Iff.rfl
  | negSucc k =>
      rw [decide_eq_true_iff, le_div_iff₀ hpositive, Nat.shiftLeft_eq, zpow_negSucc,
        inv_mul_le_iff₀ (by positivity), mul_comm]
      exact_mod_cast Iff.rfl

def lastPlace (num den : Nat) : Int :=
  max (floorLog2 num den - 52) (-1074)

theorem ofQuotient?_eq (hnum : num ≠ 0) (hden : 0 < den) :
    ∃ r, Nearest ((num : ℚ) / den / 2 ^ lastPlace num den) r ∧
      ofQuotient? num den = if (bitLength r : Int) + lastPlace num den ≤ 1024 then
        some (ofRounded r (lastPlace num den)) else none := by
  unfold ofQuotient?
  rw [if_neg hnum]
  dsimp only
  rw [← lastPlace]
  generalize lastPlace num den = place
  cases place with
  | ofNat k =>
      refine ⟨_, ?_, rfl⟩
      have hscaled : (num : ℚ) / den / 2 ^ Int.ofNat k = num / (den <<< k : Nat) := by
        rw [Nat.shiftLeft_eq, Int.ofNat_eq_natCast, zpow_natCast, div_div]
        push_cast
        rfl
      rw [hscaled]
      exact nearest_roundToEven num (by rw [Nat.shiftLeft_eq]; positivity)
  | negSucc k =>
      refine ⟨_, ?_, rfl⟩
      have hscaled : (num : ℚ) / den / 2 ^ Int.negSucc k = (num <<< (k + 1) : Nat) / den := by
        rw [Nat.shiftLeft_eq, zpow_negSucc, div_inv_eq_mul, div_mul_eq_mul_div]
        push_cast
        rfl
      rw [hscaled]
      exact nearest_roundToEven _ hden

theorem two_zpow_le_iff {a b : Int} : (2 : ℚ) ^ a ≤ 2 ^ b ↔ a ≤ b :=
  zpow_le_zpow_iff_right₀ one_lt_two

/-- The least number whose nearest double would be too large: from here on it is rounded to
`2 ^ 1024`. -/
def limit : ℚ :=
  2 ^ 1024 - 2 ^ 970

theorem limit_eq_sub : limit = (2 : ℚ) ^ (1024 : Int) - 2 ^ (970 : Int) :=
  rfl

theorem limit_eq_mul : limit = (((2 ^ 53 : Nat) : ℚ) - 1 / 2) * 2 ^ (971 : Int) := by
  have hlast : (2 : ℚ) ^ (971 : Int) = 2 * 2 ^ (970 : Int) := by
    rw [← zpow_one_add₀ two_ne_zero]
    rfl
  have hfirst : (2 : ℚ) ^ (1024 : Int) = ((2 ^ 53 : Nat) : ℚ) * 2 ^ (971 : Int) := by
    rw [Nat.cast_pow, Nat.cast_ofNat, ← zpow_natCast, ← zpow_add₀ two_ne_zero]
    rfl
  rw [limit_eq_sub, hfirst, sub_mul, hlast]
  ring

theorem two_zpow_le_limit : (2 : ℚ) ^ (1023 : Int) ≤ limit := by
  have hdouble : (2 : ℚ) ^ (1024 : Int) = 2 ^ (1023 : Int) + 2 ^ (1023 : Int) := by
    rw [← two_mul, ← zpow_one_add₀ two_ne_zero]
    rfl
  have hless : (2 : ℚ) ^ (970 : Int) ≤ 2 ^ (1023 : Int) := two_zpow_le_iff.mpr (by decide)
  rw [limit_eq_sub, hdouble, le_sub_iff_add_le]
  exact add_le_add_right hless _

theorem limit_lt_two_zpow : limit < (2 : ℚ) ^ (1024 : Int) := by
  rw [limit_eq_sub]
  exact sub_lt_self _ (by positivity)

theorem ofQuotient?_isSome_iff (num : Nat) {den : Nat} (hden : 0 < den) :
    (ofQuotient? num den).isSome = true ↔ (num : ℚ) / den < limit := by
  by_cases hnum : num = 0
  · rw [hnum, Nat.cast_zero, zero_div]
    exact iff_of_true rfl (lt_of_lt_of_le (by positivity) two_zpow_le_limit)
  · rcases ofQuotient?_eq hnum hden with ⟨r, hnearest, hresult⟩
    rcases floorLog2_spec hnum hden.ne' with ⟨hlow, hhigh⟩
    have hmeaning : (ofQuotient? num den).isSome = true ↔
        (bitLength r : Int) + lastPlace num den ≤ 1024 := by
      rw [hresult]
      split <;> simp [*]
    have hplace : lastPlace num den = max (floorLog2 num den - 52) (-1074) := rfl
    have hunit : (0 : ℚ) < 2 ^ lastPlace num den := by positivity
    rw [hmeaning]
    -- Only numbers with the exponent of the greatest double may go either way.
    rcases lt_trichotomy (floorLog2 num den) 1023 with hless | hequal | hmore
    · have hbound : (num : ℚ) / den / 2 ^ lastPlace num den < (2 ^ 53 : Nat) := by
        rw [div_lt_iff₀ hunit, Nat.cast_pow, Nat.cast_ofNat, ← zpow_natCast,
          ← zpow_add₀ two_ne_zero]
        exact hhigh.trans_le (two_zpow_le_iff.mpr (by omega))
      have hlength : bitLength r ≤ 54 :=
        bitLength_le_iff.mpr ((hnearest.le_of_lt hbound).trans_lt (by decide))
      refine iff_of_true (by omega) ?_
      exact hhigh.trans_le ((two_zpow_le_iff.mpr (by omega)).trans two_zpow_le_limit)
    · have hlast : lastPlace num den = 971 := by omega
      rw [hlast] at hnearest ⊢
      rw [limit_eq_mul, ← div_lt_iff₀ (by positivity), ← hnearest.lt_iff (by decide),
        ← bitLength_le_iff]
      omega
    · have hbound : ((2 ^ 52 : Nat) : ℚ) ≤ (num : ℚ) / den / 2 ^ lastPlace num den := by
        rw [le_div_iff₀ hunit, Nat.cast_pow, Nat.cast_ofNat, ← zpow_natCast,
          ← zpow_add₀ two_ne_zero]
        exact (two_zpow_le_iff.mpr (by omega)).trans hlow
      have hlength : 52 < bitLength r := lt_bitLength_iff.mpr (hnearest.ge_of_ge hbound)
      refine iff_of_false (by omega) (not_lt.mpr ?_)
      exact limit_lt_two_zpow.le.trans ((two_zpow_le_iff.mpr (by omega)).trans hlow)

theorem value_ofRounded (significand : Nat) (exponent : Int) :
    (ofRounded significand exponent).value = significand * 2 ^ exponent := by
  unfold ofRounded
  split
  · rename_i hzero
    rw [hzero, value, zero, Nat.cast_zero, zero_mul, zero_mul]
  · split
    · rename_i hcarry
      rw [hcarry, value, zpow_add_one₀ two_ne_zero, Nat.one_shiftLeft, Nat.one_shiftLeft]
      push_cast
      ring
    · rfl

theorem ofQuotient?_natCast {n : Nat} (h : n < 2 ^ 53) :
    ∃ d, ofQuotient? n 1 = some d ∧ d.value = n := by
  by_cases hzero : n = 0
  · rw [hzero]
    refine ⟨zero, rfl, ?_⟩
    rw [value, zero, Nat.cast_zero, zero_mul]
  · have hsome : (ofQuotient? n 1).isSome = true := by
      rw [ofQuotient?_isSome_iff n one_pos, Nat.cast_one, div_one]
      have hless : (n : ℚ) < 2 ^ (53 : Int) := by exact_mod_cast h
      exact hless.trans_le ((two_zpow_le_iff.mpr (by decide)).trans two_zpow_le_limit)
    rcases ofQuotient?_eq hzero one_pos with ⟨r, hnearest, hresult⟩
    rcases floorLog2_spec hzero one_ne_zero with ⟨hlow, _⟩
    rw [Nat.cast_one, div_one] at hnearest hlow
    have hplaces : floorLog2 n 1 ≤ 52 := by
      have hless : (2 : ℚ) ^ floorLog2 n 1 < 2 ^ (53 : Int) :=
        hlow.trans_lt (by exact_mod_cast h)
      have hexponent := (zpow_lt_zpow_iff_right₀ one_lt_two).mp hless
      omega
    obtain ⟨k, hk⟩ : ∃ k : Nat, lastPlace n 1 = -(k : Int) := by
      have hplace : lastPlace n 1 = max (floorLog2 n 1 - 52) (-1074) := rfl
      exact ⟨(-lastPlace n 1).toNat, by omega⟩
    have hexact : (n : ℚ) / 2 ^ lastPlace n 1 = (n * 2 ^ k : Nat) := by
      rw [hk, zpow_neg, div_inv_eq_mul, zpow_natCast]
      push_cast
      rfl
    rw [hexact] at hnearest
    rw [hresult] at hsome ⊢
    split
    · refine ⟨_, rfl, ?_⟩
      rw [value_ofRounded, hnearest.eq_of_natCast, ← hexact, div_mul_cancel₀ _ (by positivity)]
    · rename_i hlarge
      rw [if_neg hlarge] at hsome
      cases hsome

end Quotients

/-!
# Doubles of decimal numbers

A decimal number is a quotient of integers.  Where the number of its digits and its
exponent decide, the quotient is not formed.
-/

theorem toDigits_bounds {n : Nat} (h : n ≠ 0) :
    (10 : ℚ) ^ (((Nat.toDigits 10 n).length : Int) - 1) ≤ n ∧
      (n : ℚ) < 10 ^ ((Nat.toDigits 10 n).length : Int) := by
  obtain ⟨k, hk⟩ : ∃ k, (Nat.toDigits 10 n).length = k + 1 :=
    Nat.exists_eq_add_one.mpr Nat.length_toDigits_pos
  have hhigh : n < 10 ^ (k + 1) :=
    (Nat.length_toDigits_le_iff (by decide) (Nat.succ_pos k)).mp hk.le
  have hlow : 10 ^ k ≤ n := by
    cases k with
    | zero => exact Nat.pos_of_ne_zero h
    | succ k =>
        rw [← Nat.not_lt, ← Nat.length_toDigits_le_iff (by decide) (Nat.succ_pos k)]
        omega
  rw [hk]
  constructor
  · rw [Nat.cast_succ, add_sub_cancel_right, zpow_natCast]
    exact_mod_cast hlow
  · rw [zpow_natCast]
    exact_mod_cast hhigh

theorem limit_le_ten_zpow : limit ≤ (10 : ℚ) ^ (310 : Int) := by
  have hpowers : 2 ^ 1024 ≤ 10 ^ 310 := by decide +kernel
  have hcast : (2 : ℚ) ^ (1024 : Int) ≤ 10 ^ (310 : Int) := by exact_mod_cast hpowers
  exact limit_lt_two_zpow.le.trans hcast

theorem one_lt_limit : 1 < limit :=
  lt_of_lt_of_le (one_lt_zpow₀ one_lt_two (by decide)) two_zpow_le_limit

theorem ofDecimal?_isSome_iff (digits : Nat) (exponent : Int) :
    (ofDecimal? digits exponent).isSome = true ↔ (digits : ℚ) * 10 ^ exponent < limit := by
  unfold ofDecimal?
  by_cases hzero : digits = 0
  · rw [if_pos hzero, hzero, Nat.cast_zero, zero_mul]
    exact iff_of_true rfl (zero_lt_one.trans one_lt_limit)
  · rcases toDigits_bounds hzero with ⟨hlow, hhigh⟩
    have hpower : (0 : ℚ) < 10 ^ exponent := by positivity
    rw [if_neg hzero]
    dsimp only
    split
    · rename_i hlarge
      refine iff_of_false (by simp) (not_lt.mpr ?_)
      calc limit ≤ (10 : ℚ) ^ (310 : Int) := limit_le_ten_zpow
        _ ≤ 10 ^ (((Nat.toDigits 10 digits).length : Int) - 1 + exponent) :=
          zpow_le_zpow_right₀ (by norm_num) (by omega)
        _ = 10 ^ (((Nat.toDigits 10 digits).length : Int) - 1) * 10 ^ exponent :=
          zpow_add₀ (by norm_num) _ _
        _ ≤ digits * 10 ^ exponent := by gcongr
    · split
      · rename_i hsmall
        refine iff_of_true rfl ?_
        calc (digits : ℚ) * 10 ^ exponent
            < 10 ^ ((Nat.toDigits 10 digits).length : Int) * 10 ^ exponent := by gcongr
          _ = 10 ^ (((Nat.toDigits 10 digits).length : Int) + exponent) :=
            (zpow_add₀ (by norm_num) _ _).symm
          _ ≤ 10 ^ (0 : Int) := zpow_le_zpow_right₀ (by norm_num) (by omega)
          _ < limit := by
            rw [zpow_zero]
            exact one_lt_limit
      · cases exponent with
        | ofNat k =>
            have hquotient : (digits : ℚ) * 10 ^ Int.ofNat k =
                ((digits * Nat.pow 10 k : Nat) : ℚ) / (1 : Nat) := by
              rw [Nat.cast_one, div_one, Int.ofNat_eq_natCast, zpow_natCast, Nat.pow_eq]
              push_cast
              rfl
            rw [hquotient]
            exact ofQuotient?_isSome_iff _ one_pos
        | negSucc k =>
            have hquotient : (digits : ℚ) * 10 ^ Int.negSucc k =
                (digits : ℚ) / (Nat.pow 10 (k + 1) : Nat) := by
              rw [zpow_negSucc, Nat.pow_eq, ← div_eq_mul_inv]
              push_cast
              rfl
            rw [hquotient]
            exact ofQuotient?_isSome_iff digits (Nat.pow_pos (by decide))

theorem ofDecimal?_natCast {n : Nat} (h : n < 2 ^ 53) :
    ∃ d, ofDecimal? n 0 = some d ∧ d.value = n := by
  rcases ofQuotient?_natCast h with ⟨d, hd, hvalue⟩
  by_cases hzero : n = 0
  · rw [hzero]
    exact ⟨zero, rfl, by rw [value, zero, Nat.cast_zero, zero_mul]⟩
  · have hlength : (Nat.toDigits 10 n).length ≤ 16 :=
      (Nat.length_toDigits_le_iff (by decide) (by decide)).mpr (h.trans (by decide))
    refine ⟨d, ?_, hvalue⟩
    unfold ofDecimal?
    rw [if_neg hzero]
    dsimp only
    rw [if_neg (by omega), if_neg (by omega)]
    change ofQuotient? (n * 1) 1 = some d
    rw [Nat.mul_one, hd]

/-!
# Fixed point numbers

The magnitude of a fixed point number is the low bits of the nearest integer.
-/

theorem value_lt (d : Double) : d.value < 2 ^ ((bitLength d.significand : Int) + d.exponent) := by
  have hless : (d.significand : ℚ) < 2 ^ (bitLength d.significand : Int) := by
    exact_mod_cast bitLength_le_iff.mp le_rfl
  rw [value, zpow_add₀ two_ne_zero]
  gcongr

theorem scaledMagnitude_eq (d : Double) (places : Int) :
    d.scaledMagnitude places = ⌊d.value * 2 ^ places + 1 / 2⌋₊ % 2 ^ 35 := by
  have hmoved : d.value * 2 ^ places = d.significand * 2 ^ (d.exponent + places) := by
    rw [value, mul_assoc, ← zpow_add₀ two_ne_zero]
  rw [hmoved, ← roundUp_eq_floor]
  unfold scaledMagnitude
  dsimp only
  split
  · rename_i hlarge
    obtain ⟨k, hk⟩ := Int.eq_ofNat_of_zero_le (show 0 ≤ d.exponent + places - 35 by omega)
    have hexponent : d.exponent + places = Int.ofNat (k + 35) := by
      rw [Int.ofNat_eq_natCast]
      omega
    rw [hexponent, roundUp, Nat.shiftLeft_eq, pow_add, ← mul_assoc, Nat.mul_mod_left]
  · split
    · rename_i hsmall
      have hless : (d.significand : ℚ) * 2 ^ (d.exponent + places) < 1 / 2 := by
        rw [← hmoved]
        calc d.value * 2 ^ places
            < 2 ^ ((bitLength d.significand : Int) + d.exponent) * 2 ^ places := by
              have hvalue := d.value_lt
              gcongr
          _ = 2 ^ ((bitLength d.significand : Int) + d.exponent + places) :=
            (zpow_add₀ two_ne_zero _ _).symm
          _ ≤ 2 ^ (-1 : Int) := two_zpow_le_iff.mpr (by omega)
          _ = 1 / 2 := by norm_num
      rw [roundUp_eq_floor, Nat.floor_eq_zero.mpr (by linarith), Nat.zero_mod]
    · rfl

end Double
end Ibm704

import Ibm704.Proofs.DecimalGrammar
import Ibm704.Proofs.NearestDouble

/-!
# Scaled literals

An integer with a binary scale is shifted and loses the places that come out below the
word; the same number with a point is rounded there.  Both are right modulo the size
of a magnitude as long as the digits and the scale fit into 64 bits, in which they are
counted.  Digits that are lost above cannot come back when the number is shifted down.
-/

namespace Ibm704
namespace Literal

/-!
# Shifts

Shifts are products with powers of two, rounded down.
-/

theorem natCast_shift_up (n k : Nat) : (n : ℚ) * 2 ^ (k : Int) = ((n * 2 ^ k : Nat) : ℚ) := by
  rw [zpow_natCast]
  push_cast
  rfl

theorem floor_shift_up (n k : Nat) : ⌊(n : ℚ) * 2 ^ (k : Int)⌋₊ = n * 2 ^ k := by
  rw [natCast_shift_up, Nat.floor_natCast]

theorem fract_shift_up (n : Nat) {places : Int} (h : 0 ≤ places) :
    Int.fract ((n : ℚ) * 2 ^ places) = 0 := by
  obtain ⟨k, rfl⟩ := Int.eq_ofNat_of_zero_le h
  rw [natCast_shift_up, Int.fract_natCast]

theorem floor_shift_down (n k : Nat) : ⌊(n : ℚ) * 2 ^ (-(k : Int))⌋₊ = n / 2 ^ k := by
  have hcast : (n : ℚ) * 2 ^ (-(k : Int)) = (n : ℚ) / ((2 ^ k : Nat) : ℚ) := by
    rw [zpow_neg, zpow_natCast, div_eq_mul_inv]
    push_cast
    rfl
  rw [hcast, Nat.floor_div_eq_div]

theorem floor_shift_up_mod (n : Nat) {places : Int} {width : Nat} (h : (width : Int) ≤ places) :
    ⌊(n : ℚ) * 2 ^ places⌋₊ % 2 ^ width = 0 := by
  obtain ⟨k, hk⟩ := Int.eq_ofNat_of_zero_le (show 0 ≤ places - width by omega)
  have hplaces : places = ((k + width : Nat) : Int) := by
    push_cast
    omega
  rw [hplaces, floor_shift_up, pow_add, ← mul_assoc, Nat.mul_mod_left]

theorem floor_shift_out {n width : Nat} (hn : n < 2 ^ width) {places : Int}
    (h : places ≤ -(width : Int)) : ⌊(n : ℚ) * 2 ^ places⌋₊ = 0 := by
  obtain ⟨k, hk⟩ := Int.eq_ofNat_of_zero_le (show 0 ≤ -places by omega)
  have hplaces : places = -(k : Int) := by omega
  rw [hplaces, floor_shift_down]
  exact Nat.div_eq_of_lt (hn.trans_le (Nat.pow_le_pow_right (by decide) (by omega)))

theorem shiftInteger_eq {n : Nat} (h : n < 2 ^ 64) (places : Int) :
    shiftInteger n places = ⌊(n : ℚ) * 2 ^ places⌋₊ % 2 ^ 64 := by
  unfold shiftInteger
  split
  · rename_i hfar
    rcases hfar with hup | hdown
    · exact (floor_shift_up_mod n hup).symm
    · rw [floor_shift_out h hdown, Nat.zero_mod]
  · cases places with
    | ofNat k =>
        rw [Int.ofNat_eq_natCast, floor_shift_up, ← Nat.shiftLeft_eq]
        rfl
    | negSucc k =>
        have hdown : ⌊(n : ℚ) * 2 ^ Int.negSucc k⌋₊ = n / 2 ^ (k + 1) := floor_shift_down n (k + 1)
        rw [hdown, ← Nat.shiftRight_eq_div_pow,
          Nat.mod_eq_of_lt ((Nat.shiftRight_le n (k + 1)).trans_lt h)]

theorem bmod_of_fits {n : Int} (hlow : -2 ^ 63 ≤ n) (hhigh : n < 2 ^ 63) :
    n.bmod (2 ^ 64) = n :=
  Int.bmod_eq_of_le (by omega) (by omega)

theorem scalePlaces_eq (point : Int64) : scalePlaces point = (35 - point.toInt).bmod (2 ^ 64) :=
  Int64.toInt_sub 35 point

theorem shiftInteger_scalePlaces {n : Nat} (h : n < 2 ^ 64) (point : Int64) :
    shiftInteger n (scalePlaces point) % 2 ^ 35 =
      ⌊(n : ℚ) * 2 ^ (35 - point.toInt)⌋₊ % 2 ^ 35 := by
  have hlow := point.le_toInt
  have hhigh := point.toInt_lt
  rw [shiftInteger_eq h, Nat.mod_mod_of_dvd _ (Nat.pow_dvd_pow 2 (by decide))]
  by_cases hnear : 35 - point.toInt < 2 ^ 63
  · rw [scalePlaces_eq, bmod_of_fits (by omega) hnear]
  · have hfar : scalePlaces point ≤ -(64 : Nat) := by
      rw [scalePlaces_eq, Int.bmod_def]
      split <;> omega
    rw [floor_shift_out h hfar, Nat.zero_mod, floor_shift_up_mod n (by omega)]

/-!
# Integers

Digits are counted in 64 bits.  What is lost above does not show where the number is
shifted down by 29 places or less.
-/

theorem countDecimal_toNat (digits : List Char) :
    (countDecimal digits).toNat = Nat.ofDigitChars 10 digits 0 % 2 ^ 64 := by
  have hcount : (countDecimal digits).toNat % 2 ^ 64 = Nat.ofDigitChars 10 digits 0 % 2 ^ 64 :=
    countDecimal_modEq digits
  rw [← hcount, Nat.mod_eq_of_lt (UInt64.toNat_lt _)]

theorem floor_shift_wrapped (n : Nat) {p : Int} (h : p ≤ 64) :
    ⌊((n % 2 ^ 64 : Nat) : ℚ) * 2 ^ (35 - p)⌋₊ % 2 ^ 35 = ⌊(n : ℚ) * 2 ^ (35 - p)⌋₊ % 2 ^ 35 := by
  obtain ⟨k, hk⟩ := Int.eq_ofNat_of_zero_le (show 0 ≤ 64 - p by omega)
  have hparts : (n : ℚ) * 2 ^ (35 - p) =
      ((n % 2 ^ 64 : Nat) : ℚ) * 2 ^ (35 - p) + ((n / 2 ^ 64 * 2 ^ k * 2 ^ 35 : Nat) : ℚ) := by
    have hn : (n : ℚ) = (n % 2 ^ 64 : Nat) + 2 ^ (64 : Int) * (n / 2 ^ 64 : Nat) := by
      exact_mod_cast (Nat.mod_add_div n (2 ^ 64)).symm
    have hpower : (2 : ℚ) ^ (64 : Int) * 2 ^ (35 - p) = 2 ^ k * 2 ^ 35 := by
      rw [← zpow_natCast, ← zpow_natCast, ← zpow_add₀ two_ne_zero, ← zpow_add₀ two_ne_zero]
      congr 1
      push_cast
      omega
    calc (n : ℚ) * 2 ^ (35 - p)
        = (n % 2 ^ 64 : Nat) * 2 ^ (35 - p) +
            (n / 2 ^ 64 : Nat) * (2 ^ (64 : Int) * 2 ^ (35 - p)) := by
          rw [hn]
          ring
      _ = _ := by
          rw [hpower]
          push_cast
          ring
  rw [hparts, Nat.floor_add_natCast (by positivity), Nat.add_mul_mod_self_right]

theorem readDecimal_integer {negative : Bool} {digits : List Char} {scale : Exponent} {text : Text}
    (h : DecimalForm.Written ⟨negative, ⟨digits, none, none⟩, some scale⟩ text) :
    ∃ magnitude, readDecimal text = .ok (.make negative magnitude) ∧
      magnitude % 2 ^ 35 = ⌊((Nat.ofDigitChars 10 digits 0 % 2 ^ 64 : Nat) : ℚ) *
        2 ^ (35 - scale.number.bmod (2 ^ 64))⌋₊ % 2 ^ 35 := by
  rcases h.cut with ⟨body, hcut⟩
  refine ⟨_, hcut.readDecimal_eq, ?_⟩
  have hpoint : (Int64.ofInt scale.number).toInt = scale.number.bmod (2 ^ 64) := Int64.toInt_ofInt
  rw [← hpoint, ← shiftInteger_scalePlaces (Nat.mod_lt _ (by decide)), ← countDecimal_toNat]
  rfl

/-- An integer with a scale has the value that is written if the scale fits into 64 bits, and the
digits do or are not shifted down by 30 places or more.  In general both are taken modulo
`2 ^ 64` before the shift. -/
theorem scaled_integers_read {negative : Bool} {digits : List Char} {scale : Exponent} {text : Text}
    (h : DecimalForm.Written ⟨negative, ⟨digits, none, none⟩, some scale⟩ text) :
    ∃ w, readDecimal text = .ok w ∧ w.Fits ∧ w.negative = negative ∧
      w.magnitude = ⌊((Nat.ofDigitChars 10 digits 0 % 2 ^ 64 : Nat) : ℚ) *
        2 ^ (35 - scale.number.bmod (2 ^ 64))⌋₊ % 2 ^ 35 ∧
      (-2 ^ 63 ≤ scale.number → scale.number < 2 ^ 63 →
        Nat.ofDigitChars 10 digits 0 < 2 ^ 64 ∨ scale.number ≤ 64 →
        w.magnitude =
          ⌊(Nat.ofDigitChars 10 digits 0 : ℚ) * 2 ^ (35 - scale.number)⌋₊ % 2 ^ 35) := by
  rcases readDecimal_integer h with ⟨magnitude, hread, hmagnitude⟩
  have hword := (Word.make_magnitude negative magnitude).trans hmagnitude
  refine ⟨_, hread, Word.make_fits _ _, Word.make_negative _ _, hword, ?_⟩
  intro hlow hhigh hkept
  rw [hword, bmod_of_fits hlow hhigh]
  rcases hkept with hfew | hnear
  · rw [Nat.mod_eq_of_lt hfew]
  · exact floor_shift_wrapped _ hnear

/-- Digits of more than 64 bits: the low ones are shifted down by 29 places. -/
theorem scaled_integers_read_wide :
    let text := Text.ofString "-18446744076393906176B64"
    DecimalForm.Written
        ⟨true, ⟨"18446744076393906176".toList, none, none⟩, some ⟨false, "64".toList⟩⟩ text ∧
      ∃ w, readDecimal text = .ok w ∧ w.Fits ∧ w.negative = true ∧ w.magnitude = 5 := by
  have hwritten : DecimalForm.Written
      ⟨true, ⟨"18446744076393906176".toList, none, none⟩, some ⟨false, "64".toList⟩⟩
      (.ofString "-18446744076393906176B64") :=
    DecimalForm.written_of_parts .minus (.whole (run_of_all rfl)) .absent
      (.present .absent (run_of_all rfl)) (by decide)
  rcases scaled_integers_read hwritten with ⟨w, hread, hfits, hnegative, _, hexact⟩
  refine ⟨hwritten, w, hread, hfits, hnegative, ?_⟩
  rw [hexact (by decide) (by decide) (.inr (by decide))]
  exact congrArg (· % 2 ^ 35) (floor_shift_down 18446744076393906176 29)

/-- The one bit of this number is lost before the shift would bring it into the word. -/
theorem scaled_integer_loses_high_places :
    let text := Text.ofString "18446744073709551616B65"
    let digits := "18446744073709551616".toList
    let scale : Exponent := ⟨false, "65".toList⟩
    DecimalForm.Written ⟨false, ⟨digits, none, none⟩, some scale⟩ text ∧
      ⌊(Nat.ofDigitChars 10 digits 0 : ℚ) * 2 ^ (35 - scale.number)⌋₊ % 2 ^ 35 = 2 ^ 34 ∧
      ∃ w, readDecimal text = .ok w ∧ w.magnitude = 0 := by
  refine ⟨?_, ?_, .make false 0, rfl, rfl⟩
  · exact DecimalForm.written_of_parts .absent (.whole (run_of_all rfl)) .absent
      (.present .absent (run_of_all rfl)) (by decide)
  · exact congrArg (· % 2 ^ 35) (floor_shift_down (2 ^ 64) 30)

/-!
# Integers with a point

With a point the number is read as a double, which is exact below `2 ^ 53`, then
scaled and rounded.
-/

theorem length_dropWhile_zeros {digits : List Char} (h : ∀ c ∈ digits, c.isDigit = true) {k : Nat}
    (hless : Nat.ofDigitChars 10 digits 0 < 10 ^ k) :
    (digits.dropWhile (· == '0')).length ≤ k := by
  induction digits with
  | nil => exact Nat.zero_le k
  | cons c rest ih =>
      rw [Nat.ofDigitChars_cons] at hless
      by_cases hzero : c = '0'
      · subst hzero
        exact ih (fun d hmem => h d (List.mem_cons_of_mem _ hmem)) hless
      · have hcode := digit_code (h c List.mem_cons_self)
        have hdigit : 0 < 10 * 0 + (c.toNat - '0'.toNat) := by
          have hne : c.toNat ≠ 48 := fun heq => hzero (Char.toNat_inj.mp heq)
          show 0 < 10 * 0 + (c.toNat - 48)
          omega
        have hfull : 10 ^ rest.length < 10 ^ k :=
          calc 10 ^ rest.length
              ≤ 10 ^ rest.length * (10 * 0 + (c.toNat - '0'.toNat)) :=
                Nat.le_mul_of_pos_right _ hdigit
            _ ≤ Nat.ofDigitChars 10 rest (10 * 0 + (c.toNat - '0'.toNat)) := by
                rw [Nat.ofDigitChars_eq_ofDigitChars_zero]
                exact Nat.le_add_right _ _
            _ < 10 ^ k := hless
        rw [List.dropWhile_cons_of_neg (by simpa using hzero), List.length_cons]
        exact (Nat.pow_lt_pow_iff_right (by decide)).mp hfull

theorem toDouble?_natCast {digits chars : List Char}
    (h : Mantissa.Written ⟨digits, some [], none⟩ chars)
    (hless : Nat.ofDigitChars 10 digits 0 < 2 ^ 53) :
    ∃ d, Mantissa.toDouble? ⟨digits, some [], none⟩ = some d ∧
      d.value = Nat.ofDigitChars 10 digits 0 := by
  rcases Double.ofDecimal?_natCast hless with ⟨d, hd, hvalue⟩
  have hdigits : ∀ c ∈ digits, c.isDigit = true :=
    fun c hmem => h.digits.1 c (List.mem_append_left [] hmem)
  have hlength : Mantissa.wholeLength ⟨digits, some [], none⟩ ≤ Mantissa.keptDigits :=
    (length_dropWhile_zeros hdigits (k := 16) (hless.trans (by decide))).trans (by decide)
  refine ⟨d, ?_, hvalue⟩
  rw [Mantissa.toDouble?_eq_nearest? h hlength]
  show Double.ofDecimal? (Nat.ofDigitChars 10 (digits ++ []) 0) 0 = some d
  rw [List.append_nil, hd]

theorem scalePlaces_ofInt {p : Int} (h : |p| ≤ 1000) : scalePlaces (Int64.ofInt p) = 35 - p := by
  rw [abs_le] at h
  have hpoint : (Int64.ofInt p).toInt = p := Int64.toInt_ofInt_of_le (by omega) (by omega)
  rw [scalePlaces_eq, hpoint, bmod_of_fits (by omega) (by omega)]

theorem readDecimal_pointed {negative : Bool} {digits : List Char} {scale : Exponent} {text : Text}
    (h : DecimalForm.Written ⟨negative, ⟨digits, some [], none⟩, some scale⟩ text)
    (hless : Nat.ofDigitChars 10 digits 0 < 2 ^ 53) (hscale : |scale.number| ≤ 1000) :
    ∃ magnitude, readDecimal text = .ok (.make negative magnitude) ∧
      magnitude % 2 ^ 35 =
        ⌊(Nat.ofDigitChars 10 digits 0 : ℚ) * 2 ^ (35 - scale.number) + 1 / 2⌋₊ % 2 ^ 35 := by
  rcases h.mantissa with ⟨chars, hmantissa⟩
  rcases toDouble?_natCast hmantissa hless with ⟨d, hd, hvalue⟩
  rcases h.cut with ⟨body, hcut⟩
  have hread := hcut.readDecimal_eq
  rw [hd] at hread
  refine ⟨_, hread, ?_⟩
  show d.scaledMagnitude (scalePlaces (Int64.ofInt scale.number)) % 2 ^ 35 = _
  rw [scalePlaces_ofInt hscale, Double.scaledMagnitude_eq, hvalue, Nat.mod_mod]

/-!
# Both ways

Shifting and rounding differ by one where the part that comes out below is one half or
more.
-/

theorem floor_add_half {x : ℚ} (hx : 0 ≤ x) :
    ⌊x + 1 / 2⌋₊ = if Int.fract x < 1 / 2 then ⌊x⌋₊ else ⌊x⌋₊ + 1 := by
  have hparts : (⌊x⌋₊ : ℚ) + Int.fract x = x := by
    rw [natCast_floor_eq_intCast_floor hx]
    exact Int.floor_add_fract x
  have hlow := Int.fract_nonneg x
  have hhigh := Int.fract_lt_one x
  rw [Nat.floor_eq_iff (by positivity)]
  split
  · constructor <;> linarith
  · push_cast
    constructor <;> linarith

theorem floor_mod_eq_iff {x : ℚ} (hx : 0 ≤ x) :
    ⌊x⌋₊ % 2 ^ 35 = ⌊x + 1 / 2⌋₊ % 2 ^ 35 ↔ Int.fract x < 1 / 2 := by
  rw [floor_add_half hx]
  split
  · rename_i hhalf
    exact iff_of_true rfl hhalf
  · rename_i hhalf
    refine iff_of_false ?_ hhalf
    omega

theorem make_eq_iff {negative : Bool} {a b : Nat} :
    Word.make negative a = Word.make negative b ↔ a % 2 ^ 35 = b % 2 ^ 35 := by
  constructor
  · intro h
    have hmagnitude := congrArg Word.magnitude h
    rw [Word.make_magnitude, Word.make_magnitude] at hmagnitude
    exact hmagnitude
  · intro h
    have hrest : a % Word.signWeight = b % Word.signWeight := h
    rw [Word.make, Word.make, hrest]

/-- An integer is cut off where the scale moves places out of the word, and the same number with a
point is rounded there, so they are read alike up to one half of the last place.  The bound leaves the
rounded number within 64 bits. -/
theorem scaled_paths_compared {negative : Bool} {digits : List Char} {scale : Exponent}
    {integer pointed : Text}
    (hinteger : DecimalForm.Written ⟨negative, ⟨digits, none, none⟩, some scale⟩ integer)
    (hpointed : DecimalForm.Written ⟨negative, ⟨digits, some [], none⟩, some scale⟩ pointed)
    (hless : Nat.ofDigitChars 10 digits 0 < 2 ^ 53) (hscale : |scale.number| ≤ 1000)
    (hbound : (Nat.ofDigitChars 10 digits 0 : ℚ) * 2 ^ (35 - scale.number) < 2 ^ 63) :
    let x : ℚ := Nat.ofDigitChars 10 digits 0 * 2 ^ (35 - scale.number)
    ⌊x + 1 / 2⌋₊ < 2 ^ 64 ∧
    ∃ w v, readDecimal integer = .ok w ∧ readDecimal pointed = .ok v ∧ w.Fits ∧ v.Fits ∧
      w.negative = negative ∧ v.negative = negative ∧
      w.magnitude = ⌊x⌋₊ % 2 ^ 35 ∧ v.magnitude = ⌊x + 1 / 2⌋₊ % 2 ^ 35 ∧
      (w = v ↔ Int.fract x < 1 / 2) ∧ (scale.number ≤ 35 → w = v) := by
  intro x
  have hcounted : ⌊x + 1 / 2⌋₊ < 2 ^ 64 := by
    have hrounded : x + 1 / 2 < ((2 ^ 64 : Nat) : ℚ) := by
      push_cast
      linarith
    exact (Nat.floor_lt (by positivity)).mpr hrounded
  refine ⟨hcounted, ?_⟩
  rcases readDecimal_integer hinteger with ⟨cut, hread, hcut⟩
  rcases readDecimal_pointed hpointed hless hscale with ⟨rounded, hread', hrounded⟩
  rw [abs_le] at hscale
  rw [Nat.mod_eq_of_lt (hless.trans (by decide)), bmod_of_fits (by omega) (by omega)] at hcut
  have hsame : Word.make negative cut = .make negative rounded ↔ Int.fract x < 1 / 2 := by
    rw [make_eq_iff, hcut, hrounded]
    exact floor_mod_eq_iff (by positivity)
  refine ⟨_, _, hread, hread', Word.make_fits _ _, Word.make_fits _ _, Word.make_negative _ _,
    Word.make_negative _ _, (Word.make_magnitude _ _).trans hcut,
    (Word.make_magnitude _ _).trans hrounded, hsame, ?_⟩
  intro hplaces
  have hwhole : Int.fract x = 0 := fract_shift_up _ (by omega)
  rw [hsame, hwhole]
  norm_num

/-- A quarter of the last place is dropped either way. -/
theorem scaled_paths_compared_quarter :
    let integer := Text.ofString "-13B37"
    let pointed := Text.ofString "-13.B+37"
    let scale : Exponent := ⟨false, "37".toList⟩
    DecimalForm.Written ⟨true, ⟨"13".toList, none, none⟩, some scale⟩ integer ∧
      DecimalForm.Written ⟨true, ⟨"13".toList, some [], none⟩, some scale⟩ pointed ∧
      (Nat.ofDigitChars 10 "13".toList 0 : ℚ) * 2 ^ (35 - scale.number) < 2 ^ 63 ∧
      ∃ w, readDecimal integer = .ok w ∧ readDecimal pointed = .ok w ∧ w.negative = true ∧
        w.magnitude = 3 := by
  have hinteger : DecimalForm.Written
      ⟨true, ⟨"13".toList, none, none⟩, some ⟨false, "37".toList⟩⟩ (.ofString "-13B37") :=
    DecimalForm.written_of_parts .minus (.whole (run_of_all rfl)) .absent
      (.present .absent (run_of_all rfl)) (by decide)
  have hpointed : DecimalForm.Written
      ⟨true, ⟨"13".toList, some [], none⟩, some ⟨false, "37".toList⟩⟩ (.ofString "-13.B+37") :=
    DecimalForm.written_of_parts .minus (.both (run_of_all rfl) (List.forall_mem_nil _)) .absent
      (.present .plus (run_of_all rfl)) (by decide)
  have hx : (Nat.ofDigitChars 10 "13".toList 0 : ℚ) *
      2 ^ (35 - Exponent.number ⟨false, "37".toList⟩) = 3 + 1 / 4 := by
    show ((13 : Nat) : ℚ) * 2 ^ (-2 : Int) = 3 + 1 / 4
    norm_num
  have hbound : (Nat.ofDigitChars 10 "13".toList 0 : ℚ) *
      2 ^ (35 - Exponent.number ⟨false, "37".toList⟩) < 2 ^ 63 := by
    rw [hx]
    norm_num
  rcases scaled_paths_compared hinteger hpointed (by decide) (by decide) hbound with
    ⟨_, w, v, hread, hread', _, _, hnegative, _, hw, _, hsame, _⟩
  rw [hx] at hw hsame
  have heq : w = v := hsame.mpr (by norm_num [Int.fract])
  refine ⟨hinteger, hpointed, hbound, w, hread, heq ▸ hread', hnegative, hw.trans ?_⟩
  norm_num

/-- One half of the last place is cut off in the integer and rounded up with the point. -/
theorem half_kept_with_point :
    let scale : Exponent := ⟨false, "36".toList⟩
    DecimalForm.Written ⟨false, ⟨['1'], none, none⟩, some scale⟩ (.ofString "1B36") ∧
      DecimalForm.Written ⟨false, ⟨['1'], some [], none⟩, some scale⟩ (.ofString "1.B36") ∧
      ((1 : Nat) : ℚ) * 2 ^ (35 - scale.number) < 2 ^ 63 ∧
      readDecimal (.ofString "1B36") = .ok (.make false 0) ∧
      readDecimal (.ofString "1.B36") = .ok (.make false 1) ∧
      Word.make false 0 ≠ Word.make false 1 := by
  refine ⟨?_, ?_, ?_, rfl, rfl, by decide⟩
  · exact DecimalForm.written_of_parts .absent (.whole (run_of_all rfl)) .absent
      (.present .absent (run_of_all rfl)) (by decide)
  · exact DecimalForm.written_of_parts .absent (.both (run_of_all rfl) (List.forall_mem_nil _))
      .absent (.present .absent (run_of_all rfl)) (by decide)
  · show ((1 : Nat) : ℚ) * 2 ^ (-1 : Int) < 2 ^ 63
    norm_num

end Literal
end Ibm704

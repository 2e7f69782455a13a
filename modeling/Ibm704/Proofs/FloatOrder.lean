import Ibm704.Proofs.DecimalGrammar
import Ibm704.Proofs.FloatRounding

/-!
# The order of floating point words

Words in normal form are ordered like their numbers, with the characteristic first and
the fraction after it, and rounding keeps the order.  This is so with a characteristic
of any width.  A word keeps the low eight bits of it, so the order is kept up to the
greatest number in normal form; a number beyond it may come out less than one that fits.
-/

namespace Ibm704
namespace FloatWord

/-!
# Magnitudes of any width

The magnitude is taken with its whole characteristic first, which may need more bits
than a word has.
-/

def wideMagnitude (d : Double) : Nat :=
  if d.significand = 0 then 0 else (characteristicOf d * 2 ^ 27 + fractionOf d).toNat

theorem encode_eq_wideMagnitude_mod (d : Double) : encode d = wideMagnitude d % 2 ^ 35 := by
  unfold wideMagnitude
  by_cases hzero : d.significand = 0
  · rw [encode, if_pos hzero, if_pos hzero, Nat.zero_mod]
  · have hfraction := (fractionOf_bounds hzero).2
    rw [encode_eq_compose hzero, if_neg hzero, compose, fractionLimit_eq]
    split <;> omega

theorem encode_lt (d : Double) : encode d < 2 ^ 35 := by
  rw [encode_eq_wideMagnitude_mod]
  exact Nat.mod_lt _ (by decide)

theorem wideMagnitude_lt_iff (d : Double) : wideMagnitude d < 2 ^ 35 ↔ d.value < limit := by
  unfold wideMagnitude
  by_cases hzero : d.significand = 0
  · rw [if_pos hzero, Double.value, hzero, Nat.cast_zero, zero_mul]
    refine iff_of_true (by decide) ?_
    unfold limit
    norm_num
  · have hfraction := (fractionOf_bounds hzero).2
    rw [if_neg hzero, ← characteristicOf_le_iff hzero]
    omega

/-!
# Order

Characteristic and fraction of one exponent are ordered like the rounded fractions,
and a greater exponent has at least the characteristic of a smaller one.
-/

section Order

variable {u v : Double}

theorem exponentOf_le (hu : u.significand ≠ 0) (hv : v.significand ≠ 0) (h : u.value ≤ v.value) :
    exponentOf u ≤ exponentOf v := by
  have hless := two_zpow_lt_iff.mp
    ((exponentOf_bounds hu).1.trans_lt (h.trans_lt (exponentOf_bounds hv).2))
  omega

theorem roundedFraction_le (hsame : exponentOf u = exponentOf v) (h : u.value ≤ v.value) :
    roundedFraction u ≤ roundedFraction v := by
  rw [roundedFraction_eq, roundedFraction_eq, hsame]
  apply Nat.floor_le_floor
  gcongr

theorem parts_le (hu : u.significand ≠ 0) (hv : v.significand ≠ 0) (h : u.value ≤ v.value) :
    characteristicOf u * 2 ^ 27 + fractionOf u ≤ characteristicOf v * 2 ^ 27 + fractionOf v := by
  have hexponents := exponentOf_le hu hv h
  have hroundedu := roundedFraction_bounds hu
  have hroundedv := roundedFraction_bounds hv
  have hrounded : exponentOf u = exponentOf v → roundedFraction u ≤ roundedFraction v :=
    fun hsame => roundedFraction_le hsame h
  unfold characteristicOf fractionOf
  rw [fractionLimit_eq]
  split <;> split <;> omega

theorem wideMagnitude_mono (h : u.value ≤ v.value) : wideMagnitude u ≤ wideMagnitude v := by
  unfold wideMagnitude
  by_cases hu : u.significand = 0
  · rw [if_pos hu]
    exact Nat.zero_le _
  · have hpositive : 0 < u.value := lt_of_lt_of_le (by positivity) (exponentOf_bounds hu).1
    have hv : v.significand ≠ 0 := significand_ne_zero (hpositive.trans_le h)
    rw [if_neg hu, if_neg hv]
    exact Int.toNat_le_toNat (parts_le hu hv h)

theorem encode_le (h : u.value ≤ v.value) (hmost : v.value < limit) : encode u ≤ encode v := by
  have hwide := wideMagnitude_mono h
  have hroom := (wideMagnitude_lt_iff v).mpr hmost
  rw [encode_eq_wideMagnitude_mod, encode_eq_wideMagnitude_mod, Nat.mod_eq_of_lt hroom,
    Nat.mod_eq_of_lt (hwide.trans_lt hroom)]
  exact hwide

end Order

end FloatWord

/-!
# Floating point literals

These are the literals with a point or an exponent and without a scale.
-/

namespace Literal

inductive Floating (d : Double) (text : Text) : Prop where
  | intro {form : DecimalForm} (hwritten : form.Written text) (hscale : form.scale = none)
      (hdouble : form.mantissa.isInteger = false) (hd : form.mantissa.toDouble? = some d)

theorem Floating.magnitude {d : Double} {text : Text} (h : Floating d text) :
    ∃ w, readDecimal text = .ok w ∧ w.magnitude = FloatWord.encode d := by
  cases h with
  | @intro form hwritten hscale hdouble hd =>
      rcases hwritten.cut with ⟨body, hcut⟩
      refine ⟨.make form.negative (FloatWord.encode d), ?_, ?_⟩
      · rw [hcut.readDecimal_eq, if_neg (Bool.eq_false_iff.mp hdouble), hd, DecimalForm.point?,
          hscale]
        rfl
      · rw [Word.make_magnitude]
        exact Nat.mod_eq_of_lt (FloatWord.encode_lt d)

end Literal

namespace FloatWord

/-- The greater of two doubles is not written as a smaller word, nor is a literal for it, if there
is a word in normal form that is near it.  In general the order is kept by the magnitudes of which
words keep 35 bits. -/
theorem order_kept_within_range (u v : Double) (hle : u.value ≤ v.value) :
    (v.value < 2 ^ 127 - 2 ^ 99 → encode u ≤ encode v) ∧
    (∀ s t : Text, Literal.Floating u s → Literal.Floating v t → v.value < 2 ^ 127 - 2 ^ 99 →
      ∃ w w', Literal.readDecimal s = .ok w ∧ Literal.readDecimal t = .ok w' ∧
        w.magnitude ≤ w'.magnitude) ∧
    wideMagnitude u ≤ wideMagnitude v ∧ encode u = wideMagnitude u % 2 ^ 35 ∧
      encode v = wideMagnitude v % 2 ^ 35 ∧
      (wideMagnitude v < 2 ^ 35 ↔ v.value < 2 ^ 127 - 2 ^ 99) := by
  refine ⟨encode_le hle, ?_, wideMagnitude_mono hle, encode_eq_wideMagnitude_mod u,
    encode_eq_wideMagnitude_mod v, wideMagnitude_lt_iff v⟩
  intro s t hs ht hmost
  obtain ⟨w, hw, hfirst⟩ := hs.magnitude
  obtain ⟨w', hw', hsecond⟩ := ht.magnitude
  refine ⟨w, w', hw, hw', ?_⟩
  rw [hfirst, hsecond]
  exact encode_le hle hmost

/-- A number next to nothing, which becomes 0, and the greatest one in normal form, both also as
literals. -/
theorem order_kept_within_range_ends :
    let u : Double := ⟨1, -1074⟩
    let v : Double := ⟨2 ^ 53 - 2 ^ 26, 74⟩
    let s : Text := .ofString "-5E-324"
    let t : Text := .ofString "170141182192818631503457902219180900352."
    u.value ≤ v.value ∧ v.value < 2 ^ 127 - 2 ^ 99 ∧ encode u = 0 ∧ encode v = 2 ^ 35 - 1 ∧
      encode u ≤ encode v ∧ Literal.Floating u s ∧ Literal.Floating v t ∧
      ∃ w w', Literal.readDecimal s = .ok w ∧ Literal.readDecimal t = .ok w' ∧
        w.magnitude ≤ w'.magnitude := by
  intro u v s t
  have hle : u.value ≤ v.value := by
    have hsmall : u.value ≤ 1 := by
      show ((1 : Nat) : ℚ) * 2 ^ (-1074 : Int) ≤ 1
      rw [Nat.cast_one, one_mul]
      exact zpow_le_one_of_nonpos₀ one_le_two (by decide)
    refine hsmall.trans ?_
    norm_num [v, Double.value]
  have hmost : v.value < 2 ^ 127 - 2 ^ 99 := by
    norm_num [v, Double.value]
  have hs : Literal.Floating u s := by
    have hwritten : Literal.DecimalForm.Written
        ⟨true, ⟨['5'], none, some ⟨true, "324".toList⟩⟩, none⟩ s :=
      Literal.DecimalForm.written_of_parts .minus (.whole (Literal.run_of_all rfl))
        (.present .minus (Literal.run_of_all rfl)) .absent (by decide)
    exact .intro hwritten rfl rfl (by decide +kernel)
  have ht : Literal.Floating v t := by
    have hwritten : Literal.DecimalForm.Written
        ⟨false, ⟨"170141182192818631503457902219180900352".toList, some [], none⟩, none⟩ t :=
      Literal.DecimalForm.written_of_parts .absent
        (.both (Literal.run_of_all rfl) (List.forall_mem_nil _)) .absent .absent (by decide)
    exact .intro hwritten rfl rfl (by decide +kernel)
  rcases order_kept_within_range u v hle with ⟨hwords, hliterals, _⟩
  exact ⟨hle, hmost, by decide, by decide, hwords hmost, hs, ht, hliterals s t hs ht hmost⟩

/-- Of the least number beyond the range the characteristic is 256, of which nothing is kept, so its
word is less than that of 1; and the literal `1E39` has a smaller word than `1.`. -/
theorem order_lost_beyond_range :
    let u : Double := .ofBits 0x3FF0000000000000
    let v : Double := .ofBits 0x47DFFFFFFE000000
    u.value = 1 ∧ v.value = 2 ^ 127 - 2 ^ 99 ∧ u.value ≤ v.value ∧ encode v < encode u ∧
      ∃ w w', Literal.readDecimal (.ofString "1.") = .ok w ∧
        Literal.readDecimal (.ofString "1E39") = .ok w' ∧ w'.magnitude < w.magnitude := by
  intro u v
  have hu : u.value = 1 := by
    have hparts : u = ⟨2 ^ 52, -52⟩ := by decide
    rw [hparts]
    norm_num [Double.value]
  have hv : v.value = 2 ^ 127 - 2 ^ 99 := by
    have hparts : v = ⟨2 ^ 53 - 2 ^ 25, 74⟩ := by decide
    rw [hparts]
    norm_num [Double.value]
  refine ⟨hu, hv, ?_, by decide, .ofNat 0o201400000000, .ofNat 0o002570120775, rfl, rfl, by decide⟩
  rw [hu, hv]
  norm_num

end FloatWord
end Ibm704

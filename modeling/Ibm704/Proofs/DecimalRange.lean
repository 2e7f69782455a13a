import Ibm704.Proofs.DecimalGrammar
import Ibm704.Proofs.NearestDouble

/-!
# The range of decimal literals

A literal with a point or an exponent stands for the double nearest to its number, so
it is refused if there is none.  Exponents of more than five digits are cut short, but
with as few digits as are kept the number is out of range either way, or next to
nothing either way.  With more digits, it is known whether the number is in range if
all digits before the point are kept and the exponent is not cut.
-/

namespace Ibm704
namespace Literal

/-!
# The number of a mantissa

The number is that of all digits and of the whole exponent, however long they are.
-/

namespace Mantissa

def exactExponent (m : Mantissa) : Int :=
  m.exponent.elim 0 Exponent.number - (m.fraction.getD []).length

def value (m : Mantissa) : ℚ :=
  Nat.ofDigitChars 10 m.digits 0 * 10 ^ m.exactExponent

theorem exponentValue_or (digits : List Char) :
    exponentValue digits = Nat.ofDigitChars 10 digits 0 ∨
      10000 ≤ exponentValue digits ∧ 10000 ≤ Nat.ofDigitChars 10 digits 0 := by
  refine List.foldl_rel (r := fun cut exact => cut = exact ∨ 10000 ≤ cut ∧ 10000 ≤ exact)
    (.inl rfl) ?_
  intro c _ cut exact h
  split <;> omega

theorem foldl_exponent {digits : List Char} (h : ∀ c ∈ digits, c.isDigit = true) {value k : Nat}
    (hvalue : value < 10 ^ k) (hfew : digits.length + k ≤ 5) :
    digits.foldl (fun value c =>
        if value < 10000 then value * 10 + (c.toNat - '0'.toNat) else value) value =
      Nat.ofDigitChars 10 digits value := by
  induction digits generalizing value k with
  | nil => rfl
  | cons c rest ih =>
      have hcode := digit_code (h c List.mem_cons_self)
      rw [List.length_cons] at hfew
      have hless : value < 10000 :=
        hvalue.trans_le (Nat.pow_le_pow_right (by decide) (show k ≤ 4 by omega))
      have hnext : value * 10 + (c.toNat - '0'.toNat) < 10 ^ (k + 1) := by
        rw [pow_succ]
        show value * 10 + (c.toNat - 48) < 10 ^ k * 10
        omega
      rw [List.foldl_cons, if_pos hless, Nat.ofDigitChars_cons, mul_comm 10 value]
      exact ih (fun d hmem => h d (List.mem_cons_of_mem c hmem)) hnext (by omega)

theorem decimalExponent_eq {m : Mantissa} {chars : List Char} (h : m.Written chars)
    (hshort : ∀ e ∈ m.exponent, e.digits.length ≤ 5) : m.decimalExponent = m.exactExponent := by
  cases h with
  | intro _ hpower =>
      rcases m with ⟨whole, fraction, exponent⟩
      cases hpower with
      | absent => rfl
      | @present negative mark digits hmark hdigits =>
          have hsame : exponentValue digits = Nat.ofDigitChars 10 digits 0 :=
            foldl_exponent (k := 0) hdigits.all (by decide) (hshort _ rfl)
          rw [decimalExponent, exactExponent, writtenExponent, Option.elim_some, Exponent.number]
          dsimp only
          rw [hsame]

theorem ofDigitChars_lt {digits : List Char} (h : ∀ c ∈ digits, c.isDigit = true) (n : Nat) :
    Nat.ofDigitChars 10 digits n < (n + 1) * 10 ^ digits.length := by
  induction digits generalizing n with
  | nil => simp
  | cons c rest ih =>
      have hcode := digit_code (h c List.mem_cons_self)
      have hnext : 10 * n + (c.toNat - '0'.toNat) + 1 ≤ (n + 1) * 10 := by
        show 10 * n + (c.toNat - 48) + 1 ≤ (n + 1) * 10
        omega
      rw [Nat.ofDigitChars_cons, List.length_cons, pow_succ', ← mul_assoc]
      exact (ih (fun d hmem => h d (List.mem_cons_of_mem c hmem)) _).trans_le
        (Nat.mul_le_mul_right _ hnext)

/-!
# Numbers in range

Exponents of five digits or less are not cut.  One that is cut is large all the same,
so with at most `keptDigits` digits before it the number is in range exactly if it is
with the whole exponent.
-/

theorem lt_limit_of_small {n k : Nat} (hn : n < 10 ^ k) {e : Int} (he : e ≤ -(k : Int)) :
    (n : ℚ) * 10 ^ e < Double.limit := by
  have hless : (n : ℚ) < 10 ^ (k : Int) := by exact_mod_cast hn
  calc (n : ℚ) * 10 ^ e < 10 ^ (k : Int) * 10 ^ e := by gcongr
    _ = 10 ^ ((k : Int) + e) := (zpow_add₀ (by norm_num) _ _).symm
    _ ≤ 10 ^ (0 : Int) := zpow_le_zpow_right₀ (by norm_num) (by omega)
    _ < Double.limit := by
      rw [zpow_zero]
      exact Double.one_lt_limit

theorem value_fraction_lt {fraction : List Char} (h : ∀ c ∈ fraction, c.isDigit = true) :
    value ⟨[], some fraction, none⟩ < Double.limit := by
  have hdigits := ofDigitChars_lt h 0
  rw [zero_add, one_mul] at hdigits
  refine lt_limit_of_small hdigits ?_
  show (0 : Int) - fraction.length ≤ -fraction.length
  omega

theorem limit_le_of_large {n : Nat} (hn : n ≠ 0) {e : Int} (he : 310 ≤ e) :
    Double.limit ≤ (n : ℚ) * 10 ^ e := by
  have hone : (1 : ℚ) ≤ n := by exact_mod_cast Nat.pos_of_ne_zero hn
  calc Double.limit ≤ (10 : ℚ) ^ (310 : Int) := Double.limit_le_ten_zpow
    _ ≤ 10 ^ e := zpow_le_zpow_right₀ (by norm_num) he
    _ ≤ n * 10 ^ e := le_mul_of_one_le_left (by positivity) hone

theorem cut_exponent_in_range {m : Mantissa} {chars : List Char} (h : m.Written chars)
    (hfew : m.digits.length ≤ keptDigits) :
    (Nat.ofDigitChars 10 m.digits 0 : ℚ) * 10 ^ m.decimalExponent < Double.limit ↔
      m.value < Double.limit := by
  have hsize : Nat.ofDigitChars 10 m.digits 0 < 10 ^ keptDigits := by
    have hdigits := ofDigitChars_lt h.digits.1 0
    rw [zero_add, one_mul] at hdigits
    exact hdigits.trans_le (Nat.pow_le_pow_right (by decide) hfew)
  have hplaces : (m.fraction.getD []).length ≤ 800 := by
    refine le_trans ?_ hfew
    rw [digits, List.length_append]
    exact Nat.le_add_left _ _
  have hkept : (keptDigits : Int) = 800 := rfl
  rw [value, exactExponent, decimalExponent, writtenExponent]
  generalize Nat.ofDigitChars 10 m.digits 0 = n at hsize ⊢
  cases m.exponent with
  | none => rfl
  | some e =>
      dsimp only [Option.elim_some]
      rw [Exponent.number]
      rcases exponentValue_or e.digits with hsame | ⟨hcut, hexact⟩
      · rw [hsame]
      · by_cases hnone : n = 0
        · rw [hnone, Nat.cast_zero, zero_mul, zero_mul]
        · by_cases hsign : e.negative = true
          · rw [if_pos hsign, if_pos hsign]
            exact iff_of_true (lt_limit_of_small hsize (by omega))
              (lt_limit_of_small hsize (by omega))
          · rw [if_neg hsign, if_neg hsign]
            exact iff_of_false (limit_le_of_large hnone (by omega)).not_gt
              (limit_le_of_large hnone (by omega)).not_gt

theorem toDouble?_isSome_iff_of_uncut {m : Mantissa} {chars : List Char} (h : m.Written chars)
    (hwhole : m.wholeLength ≤ keptDigits) (hshort : ∀ e ∈ m.exponent, e.digits.length ≤ 5) :
    m.toDouble?.isSome = true ↔ m.value < Double.limit := by
  rw [toDouble?_eq_nearest? h hwhole, nearest?, Double.ofDecimal?_isSome_iff,
    decimalExponent_eq h hshort]
  rfl

theorem toDouble?_isSome_iff {m : Mantissa} {chars : List Char} (h : m.Written chars)
    (hfew : m.digits.length ≤ keptDigits) :
    m.toDouble?.isSome = true ↔ m.value < Double.limit := by
  have hwhole : m.wholeLength ≤ keptDigits := by
    refine le_trans (List.length_dropWhile_le _ _) (le_trans ?_ hfew)
    rw [digits, List.length_append]
    exact Nat.le_add_right _ _
  rw [toDouble?_eq_nearest? h hwhole, nearest?, Double.ofDecimal?_isSome_iff,
    cut_exponent_in_range h hfew]

end Mantissa

/-!
# Literals that are accepted

A literal with a point or an exponent has to be a double.
-/

namespace DecimalForm

/-- A number that has to be a double is not too large for one. -/
def InRange (form : DecimalForm) : Prop :=
  form.mantissa.isInteger = false → form.mantissa.value < Double.limit

theorem Written.digits_length_le {form : DecimalForm} {text : Text} (h : form.Written text) :
    form.mantissa.digits.length ≤ text.length := by
  cases h with
  | intro hmark hmantissa hscale =>
      rw [Text.length_ofChars (plain_of_parts hmark hmantissa hscale), List.length_append,
        List.length_append]
      exact hmantissa.digits.2.trans (by omega)

theorem Written.mantissa_eq {form other : DecimalForm} {text : Text} (h : form.Written text)
    (hother : other.Written text) : form.mantissa = other.mantissa := by
  rcases h.cut with ⟨body, hcut⟩
  rcases hother.cut with ⟨otherBody, hotherCut⟩
  have hbody : body = otherBody :=
    congrArg Prod.snd (Except.ok.inj (hcut.split.symm.trans hotherCut.split))
  rw [← hbody] at hotherCut
  exact Except.ok.inj (hcut.mantissa.symm.trans hotherCut.mantissa)

end DecimalForm

/-- A text is accepted exactly if it has the form of a literal and its number is in range, and it is
refused for what is wrong with it.  That numbers with more digits than are kept are told to be in
range when they are is assumed, but only if so many stand before the point or if the exponent has more
than five digits. -/
theorem decimal_literals_accepted (text : Text)
    (hmany : ∀ form : DecimalForm, form.Written text → form.mantissa.isInteger = false →
      Mantissa.keptDigits < form.mantissa.digits.length →
      (Mantissa.keptDigits < form.mantissa.wholeLength ∨
        ∃ e ∈ form.mantissa.exponent, 5 < e.digits.length) →
        (form.mantissa.toDouble?.isSome = true ↔ form.mantissa.value < Double.limit)) :
    ((∃ w, readDecimal text = .ok w) ↔ ∃ form : DecimalForm, form.Written text ∧ form.InRange) ∧
    (readDecimal text = .error .empty ↔ text = []) ∧
    (readDecimal text = .error .duplicateSign ↔ SignedTwice text) ∧
    ((∃ error : Error, error.digitsAtFault = true ∧ readDecimal text = .error error) ↔
      (¬∃ form : DecimalForm, form.Written text ∧ form.InRange) ∧ text ≠ [] ∧
        ¬SignedTwice text) := by
  have haccepted : (∃ w, readDecimal text = .ok w) ↔
      ∃ form : DecimalForm, form.Written text ∧ form.InRange := by
    rw [readDecimal_eq_ok_iff]
    refine exists_congr fun form => and_congr_right fun hwritten => forall_congr' fun hdouble => ?_
    rcases hwritten.mantissa with ⟨chars, hmantissa⟩
    by_cases hfew : form.mantissa.digits.length ≤ Mantissa.keptDigits
    · exact Mantissa.toDouble?_isSome_iff hmantissa hfew
    · by_cases huncut : form.mantissa.wholeLength ≤ Mantissa.keptDigits ∧
          ∀ e ∈ form.mantissa.exponent, e.digits.length ≤ 5
      · exact Mantissa.toDouble?_isSome_iff_of_uncut hmantissa huncut.1 huncut.2
      · refine hmany form hwritten hdouble (not_le.mp hfew) ?_
        simpa only [not_and_or, not_forall, not_le, exists_prop] using huncut
  rcases readDecimal_sign_faults text with ⟨hempty, hduplicate⟩
  refine ⟨haccepted, hempty, hduplicate, ?_⟩
  rw [← haccepted, ne_eq, ← hempty, ← hduplicate]
  cases readDecimal text with
  | ok w =>
      refine iff_of_false ?_ fun h => h.1 ⟨w, rfl⟩
      rintro ⟨error, _, herror⟩
      cases herror
  | error error => cases error <;> simp [Error.digitsAtFault]

/-- A double next to the greatest one, moved up by the scale, a number beyond the range, and one with
more digits than are kept. -/
theorem decimal_literals_accepted_bounds :
    (∃ w, readDecimal (.ofString "-1.E+308B-3") = .ok w) ∧
      (∃ error : Error, error.digitsAtFault = true ∧
        readDecimal (.ofString "1E310") = .error error) ∧
      Mantissa.keptDigits < (List.replicate 900 '9').length ∧
      ∃ w, readDecimal (.ofChars ('.' :: List.replicate 900 '9')) = .ok w := by
  have hshort : ∀ {text : Text}, text.length ≤ Mantissa.keptDigits →
      ∀ form : DecimalForm, form.Written text → form.mantissa.isInteger = false →
        Mantissa.keptDigits < form.mantissa.digits.length →
        (Mantissa.keptDigits < form.mantissa.wholeLength ∨
          ∃ e ∈ form.mantissa.exponent, 5 < e.digits.length) →
        (form.mantissa.toDouble?.isSome = true ↔ form.mantissa.value < Double.limit) :=
    fun hlength form hwritten _ hmany =>
      absurd (hwritten.digits_length_le.trans hlength) (not_le.mpr hmany)
  refine ⟨?_, ?_, by rw [List.length_replicate]; decide, ?_⟩
  · rw [(decimal_literals_accepted (.ofString "-1.E+308B-3") (hshort (by decide))).1]
    refine ⟨⟨true, ⟨['1'], some [], some ⟨false, "308".toList⟩⟩, some ⟨true, ['3']⟩⟩, ?_, ?_⟩
    · exact DecimalForm.written_of_parts .minus (.both (run_of_all rfl) (List.forall_mem_nil _))
        (.present .plus (run_of_all rfl)) (.present .minus (run_of_all rfl)) (by decide)
    · intro _
      have hpowers : 10 ^ 308 + 2 ^ 970 < 2 ^ 1024 := by decide +kernel
      have hless : (10 : ℚ) ^ 308 < 2 ^ 1024 - 2 ^ 970 := by
        rw [lt_sub_iff_add_lt]
        exact_mod_cast hpowers
      have hvalue : Mantissa.value ⟨['1'], some [], some ⟨false, "308".toList⟩⟩ =
          (Nat.ofDigitChars 10 ['1'] 0 : ℚ) * 10 ^ (308 : Int) := rfl
      rw [hvalue, show Nat.ofDigitChars 10 ['1'] 0 = 1 from rfl, Nat.cast_one, one_mul]
      exact hless
  · have hread : readDecimal (.ofString "1E310") = .error (.unreadable "1E310".toList) := rfl
    rcases decimal_literals_accepted (.ofString "1E310") (hshort (by decide)) with
      ⟨haccepted, hempty, hduplicate, hdigits⟩
    rw [hdigits, ← haccepted, ne_eq, ← hempty, ← hduplicate, hread]
    simp
  · have hrun : Run (List.replicate 900 '9') :=
      ⟨by decide, fun c hmem => (List.eq_of_mem_replicate hmem).symm ▸ rfl⟩
    have hwritten : DecimalForm.Written ⟨false, ⟨[], some (List.replicate 900 '9'), none⟩, none⟩
        (.ofChars ('.' :: List.replicate 900 '9')) :=
      DecimalForm.written_of_parts .absent (.fraction hrun) .absent .absent
        (by rw [List.nil_append, List.append_nil, List.append_nil])
    rw [(decimal_literals_accepted (.ofChars ('.' :: List.replicate 900 '9')) ?_).1]
    · exact ⟨_, hwritten, fun _ => Mantissa.value_fraction_lt hrun.all⟩
    · intro form hform _ _ hmany
      rw [hform.mantissa_eq hwritten] at hmany
      rcases hmany with hwhole | ⟨e, he, _⟩
      · exact absurd hwhole (Nat.not_lt_zero _)
      · cases he

end Literal
end Ibm704

import Mathlib.Data.List.Infix
import Ibm704.Word.Accumulator
import Ibm704.Proofs.SignedSums

/-!
# Sums and products in the accumulator

The accumulator keeps one bit more than a word.  Each addition leaves the remainder
of the exact sum toward zero, so after any number of additions the value is right
modulo the weight of the first carry that is lost.  As long as no exact sum on the
way was as large as that, nothing was lost, and the bit above the word says whether
a word has room for the sum.

A product of two words has 70 bits at most, and the two registers hold all of
them.  They can be cut from the product with 64-bit arithmetic only.
-/

namespace Ibm704

theorem Word.magnitude_lt (w : Word) : w.magnitude < signWeight :=
  Nat.mod_lt _ (by decide)

/-!
# One addition

An addition is exact up to the carry that is lost.  Storing the accumulator loses the
bit above the word.
-/

namespace Accumulator

theorem toInt_eq (ac : Accumulator) : ac.toInt = Word.signedInt (ac.negative, ac.magnitude) :=
  rfl

theorem natAbs_toInt (ac : Accumulator) : ac.toInt.natAbs = ac.magnitude := by
  rw [toInt]
  split
  · rw [Int.natAbs_neg, Int.natAbs_natCast]
  · exact Int.natAbs_natCast _

theorem overflow_iff (ac : Accumulator) :
    ac.overflow = true ↔ Word.signWeight ≤ ac.toInt.natAbs := by
  rw [natAbs_toInt]
  exact decide_eq_true_iff

theorem toInt_toWord (ac : Accumulator) : ac.toWord.toInt = ac.toInt.tmod Word.signWeight := by
  rw [toWord, Word.make_toInt, ← toInt_eq]

theorem ofWord_magnitude_lt (w : Word) : (ofWord w).magnitude < 2 * Word.signWeight :=
  w.magnitude_lt.trans (by decide)

theorem add_magnitude_lt (ac : Accumulator) (w : Word) :
    (ac.add w).magnitude < 2 * Word.signWeight :=
  Nat.mod_lt _ (by decide)

theorem toInt_add (ac : Accumulator) (w : Word) :
    (ac.add w).toInt = (ac.toInt + w.toInt).tmod (2 * Word.signWeight : Nat) := by
  rw [toInt_eq, add, Word.signedInt_mod, Word.signedInt_signedSum]
  rfl

/-!
# Runs of additions

No carry is lost if every exact sum on the way has room in the accumulator.
-/

def addAll (ac : Accumulator) (words : List Word) : Accumulator :=
  words.foldl add ac

def exactSum (w : Word) (words : List Word) : Int :=
  w.toInt + (words.map Word.toInt).sum

theorem addAll_concat (ac : Accumulator) (words : List Word) (v : Word) :
    ac.addAll (words ++ [v]) = (ac.addAll words).add v :=
  List.foldl_concat add ac v words

theorem exactSum_concat (w : Word) (words : List Word) (v : Word) :
    exactSum w (words ++ [v]) = exactSum w words + v.toInt := by
  simp [exactSum, add_assoc]

theorem addAll_magnitude_lt (w : Word) (words : List Word) :
    ((ofWord w).addAll words).magnitude < 2 * Word.signWeight := by
  cases words using List.reverseRecOn with
  | nil => exact ofWord_magnitude_lt w
  | append_singleton words v =>
      rw [addAll_concat]
      exact add_magnitude_lt _ v

theorem addAll_modEq (w : Word) (words : List Word) :
    ((ofWord w).addAll words).toInt ≡ exactSum w words [ZMOD (2 * Word.signWeight : Nat)] := by
  induction words using List.reverseRecOn with
  | nil =>
      rw [exactSum, List.map_nil, List.sum_nil, add_zero]
      exact Int.ModEq.refl _
  | append_singleton words v ih =>
      rw [addAll_concat, toInt_add, exactSum_concat]
      exact (Word.tmod_modEq _ _).trans (ih.add_right v.toInt)

theorem addAll_exact {w : Word} {words : List Word}
    (h : ∀ earlier, earlier <+: words → (exactSum w earlier).natAbs < 2 * Word.signWeight) :
    ((ofWord w).addAll words).toInt = exactSum w words := by
  induction words using List.reverseRecOn with
  | nil =>
      rw [exactSum, List.map_nil, List.sum_nil, add_zero]
      rfl
  | append_singleton words v ih =>
      have hbefore := ih fun earlier hearlier =>
        h earlier (hearlier.trans (List.prefix_append words [v]))
      have hroom := h (words ++ [v]) List.prefix_rfl
      rw [exactSum_concat] at hroom
      rw [addAll_concat, toInt_add, hbefore, exactSum_concat, Word.tmod_of_natAbs_lt hroom]

/-- Words that are added one after another: the accumulator has 36 bits and is right modulo their
number, it is exact with a true overflow bit as long as no exact sum had more bits than that, and
what is stored from it is right in the bits of a word. -/
theorem sums_kept_to_lost_carry (w : Word) (words : List Word) :
    ((ofWord w).addAll words).magnitude < 2 ^ 36 ∧
    ((ofWord w).addAll words).toInt ≡ exactSum w words [ZMOD 2 ^ 36] ∧
    ((∀ earlier, earlier <+: words → (exactSum w earlier).natAbs < 2 ^ 36) →
      ((ofWord w).addAll words).toInt = exactSum w words ∧
        (((ofWord w).addAll words).overflow = true ↔ 2 ^ 35 ≤ (exactSum w words).natAbs)) ∧
    ((ofWord w).addAll words).toWord.toInt ≡ exactSum w words [ZMOD 2 ^ 35] := by
  have hsum := addAll_modEq w words
  refine ⟨addAll_magnitude_lt w words, hsum, ?_, ?_⟩
  · intro hroom
    have hexact := addAll_exact hroom
    refine ⟨hexact, ?_⟩
    rw [overflow_iff, hexact]
    exact Iff.rfl
  · have hword : (2 ^ 35 : Int) ∣ (2 * Word.signWeight : Nat) := by decide
    rw [toInt_toWord]
    exact (Word.tmod_modEq _ Word.signWeight).trans (hsum.of_dvd hword)

/-- The largest word and itself reach the overflow bit.  Taking it away again, from a word with stray
bits above its sign, brings the exact sum back into a word. -/
theorem sums_kept_to_lost_carry_and_back :
    let w := Word.ofNat 0o377777777777
    let words := [w, Word.ofNat 0o17777777777777]
    (∀ earlier, earlier <+: words → (exactSum w earlier).natAbs < 2 ^ 36) ∧
      ((ofWord w).addAll words).toInt = exactSum w words ∧ exactSum w words = w.toInt ∧
      ((ofWord w).addAll words).overflow = false ∧ ((ofWord w).add w).overflow = true := by
  intro w words
  have hroom : ∀ earlier, earlier <+: words → (exactSum w earlier).natAbs < 2 ^ 36 := by
    intro earlier hearlier
    have hall : ∀ earlier ∈ words.inits, (exactSum w earlier).natAbs < 2 ^ 36 := by decide
    exact hall earlier ((List.mem_inits earlier words).mpr hearlier)
  have hkept := (sums_kept_to_lost_carry w words).2.2.1 hroom
  exact ⟨hroom, hkept.1, by decide, by decide, by decide⟩

-- Once a carry was lost, later words do not bring the exact sum back.
example :
    let w := Word.ofNat 0o377777777777
    let words := [w, w, w.neg, w.neg]
    exactSum w words = w.toInt ∧ ((ofWord w).addAll words).toInt = w.toInt - 2 ^ 36 := by
  decide

end Accumulator

/-!
# Products

The two registers together hold the whole product.  It is also formed from two halves
of 64 bits, whose bits from 35 on stand in both.
-/

namespace Word

theorem make_congr {negative : Bool} {m n : Nat} (h : m % signWeight = n % signWeight) :
    make negative m = make negative n := by
  rw [make, make, h]

def mulWrapped (w v : Word) : Word :=
  make (w.negative != v.negative)
    (BitVec.ofNat 64 w.magnitude * BitVec.ofNat 64 v.magnitude).toNat

theorem mulWrapped_eq (w v : Word) : w.mulWrapped v = w.mul v := by
  apply make_congr
  rw [BitVec.toNat_mul, BitVec.toNat_ofNat, BitVec.toNat_ofNat, ← Nat.mul_mod]
  exact Nat.mod_mod_of_dvd _ (by decide)

end Word

namespace Product

/-- The product of two words where products of magnitudes come in two halves of 64 bits, from which
the registers are cut by shifts. -/
def ofHalves (w v : Word) : Product :=
  let product := BitVec.ofNat 128 (w.magnitude * v.magnitude)
  let high := product.extractLsb' 64 64
  let low := product.extractLsb' 0 64
  ⟨w.negative != v.negative,
    ((high <<< 29 ||| low >>> 35) &&& Word.Field.lowMask 35).toNat,
    (low &&& Word.Field.lowMask 35).toNat⟩

theorem halves_joined (product : BitVec 128) :
    product.extractLsb' 64 64 <<< 29 ||| product.extractLsb' 0 64 >>> 35 =
      product.extractLsb' 35 64 := by
  apply BitVec.eq_of_getLsbD_eq
  intro i hi
  simp only [BitVec.getLsbD_or, BitVec.getLsbD_shiftLeft, BitVec.getLsbD_ushiftRight,
    BitVec.getLsbD_extractLsb']
  by_cases hlow : i < 29
  · simp [hlow, hi, show 35 + i < 64 by omega]
  · simp [hlow, hi, show ¬35 + i < 64 by omega, show i - 29 < 64 by omega,
      show 64 + (i - 29) = 35 + i by omega]

theorem extracted_masked (product : BitVec 128) (start : Nat) :
    (product.extractLsb' start 64 &&& Word.Field.lowMask 35).toNat =
      product.toNat >>> start % Word.signWeight := by
  rw [BitVec.toNat_and, Word.lowMask_toNat (by decide), BitVec.extractLsb'_toNat,
    Nat.one_shiftLeft, Nat.and_two_pow_sub_one_eq_mod]
  exact Nat.mod_mod_of_dvd _ (by decide)

theorem product_lt (w v : Word) :
    w.magnitude * v.magnitude < Word.signWeight * Word.signWeight :=
  Nat.mul_lt_mul_of_lt_of_le w.magnitude_lt v.magnitude_lt.le (by decide)

theorem ofHalves_eq (w v : Word) : ofHalves w v = ofWords w v := by
  have hproduct : (BitVec.ofNat 128 (w.magnitude * v.magnitude)).toNat =
      w.magnitude * v.magnitude := by
    rw [BitVec.toNat_ofNat]
    exact Nat.mod_eq_of_lt ((product_lt w v).trans (by decide))
  rw [ofHalves, ofWords, halves_joined, extracted_masked, extracted_masked, hproduct,
    Nat.shiftRight_zero, Nat.shiftRight_eq_div_pow]
  rfl

theorem high_low (w v : Word) :
    (ofWords w v).high * Word.signWeight + (ofWords w v).low = w.magnitude * v.magnitude := by
  have hhigh : w.magnitude * v.magnitude / Word.signWeight < Word.signWeight :=
    Nat.div_lt_of_lt_mul (product_lt w v)
  show w.magnitude * v.magnitude / Word.signWeight % Word.signWeight * Word.signWeight +
    w.magnitude * v.magnitude % Word.signWeight = _
  rw [Nat.mod_eq_of_lt hhigh, Nat.div_add_mod']

/-- The product of two words: the registers have 35 bits each and together the exact product, under
the sign that the two signs give, and the quotient register has the product of one word.  All of it
can be done with 64 bits, in halves for the two registers and with lost carries for one. -/
theorem products_in_two_registers (w v : Word) :
    ((ofWords w v).high < 2 ^ 35 ∧ (ofWords w v).low < 2 ^ 35) ∧
    (ofWords w v).high * 2 ^ 35 + (ofWords w v).low = w.magnitude * v.magnitude ∧
    ((ofWords w v).negative = true ↔ w.negative ≠ v.negative) ∧
    w.mul v = (ofWords w v).quotient ∧
    (ofHalves w v = ofWords w v ∧ w.mulWrapped v = w.mul v) := by
  refine ⟨⟨Nat.mod_lt _ (by decide), Nat.mod_lt _ (by decide)⟩, high_low w v, bne_iff_ne, ?_,
    ofHalves_eq w v, w.mulWrapped_eq v⟩
  apply Word.make_congr
  exact (Nat.mod_mod _ _).symm

end Product

end Ibm704

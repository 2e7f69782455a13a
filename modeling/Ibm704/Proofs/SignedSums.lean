import Ibm704.Proofs.StoredWords

/-!
# Sums of signed words

Magnitudes of one sign are added, and of opposite signs the smaller is taken from the
larger.  Before high bits are dropped this is the sum of the integers, so a sum of words
has the same value as the word of that integer.  The two may differ in the sign of a
zero: words that cancel leave a zero with the sign of the first one.  So a sum does not
depend on the order of the words as an integer, but it may as a word.
-/

namespace Ibm704
namespace Word

/-!
# Signs and magnitudes

Magnitudes of one sign are added.  Otherwise the smaller is taken from the larger,
whose sign stays.
-/

theorem signedInt_not (negative : Bool) (magnitude : Nat) :
    signedInt (!negative, magnitude) = -signedInt (negative, magnitude) := by
  cases negative with
  | true => exact (neg_neg _).symm
  | false => rfl

theorem signedInt_signedSum (first second : Bool × Nat) :
    signedInt (signedSum first second) = signedInt first + signedInt second := by
  obtain ⟨negative, magnitude⟩ := first
  obtain ⟨negative', magnitude'⟩ := second
  unfold signedSum
  dsimp only
  split
  · rename_i hsigns
    subst hsigns
    cases negative <;> simp [signedInt]
    omega
  · rename_i hsigns
    obtain rfl : negative' = !negative := Bool.eq_not.mpr (Ne.symm hsigns)
    split <;> cases negative <;> simp [signedInt] <;> omega

/-- The sign of a sum: the one that both have, or that of the larger magnitude, or the first one's
at a tie. -/
structure SumSign (first second : Bool × Nat) (negative : Bool) : Prop where
  common : first.1 = second.1 → negative = first.1
  larger_first : second.2 < first.2 → negative = first.1
  larger_second : first.2 < second.2 → negative = second.1
  tie : first.2 = second.2 → negative = first.1

theorem signedSum_sign (first second : Bool × Nat) :
    SumSign first second (signedSum first second).1 := by
  unfold signedSum
  split
  · rename_i hsigns
    exact ⟨fun _ => rfl, fun _ => rfl, fun _ => hsigns, fun _ => rfl⟩
  · rename_i hsigns
    split
    · rename_i hmore
      exact ⟨fun _ => rfl, fun _ => rfl, fun hless => absurd hmore (Nat.not_le.mpr hless),
        fun _ => rfl⟩
    · rename_i hless
      have hfirst : first.2 < second.2 := Nat.not_le.mp hless
      exact ⟨fun hcommon => absurd hcommon hsigns, fun hmore => absurd hfirst hmore.asymm,
        fun _ => rfl, fun htie => absurd htie hfirst.ne⟩

/-!
# Negation

Negation changes the sign, also that of zero.
-/

theorem neg_negative (w : Word) : w.neg.negative = !w.negative :=
  make_negative _ _

theorem neg_magnitude (w : Word) : w.neg.magnitude = w.magnitude := by
  rw [neg, make_magnitude, magnitude, Nat.mod_mod]

theorem toInt_neg (w : Word) : w.neg.toInt = -w.toInt := by
  rw [toInt_eq, neg_negative, neg_magnitude, signedInt_not, ← toInt_eq]

/-!
# Sums

A sum has the value that the word of the exact sum has.
-/

theorem toInt_add (w v : Word) : (w.add v).toInt = (ofInt (w.toInt + v.toInt)).toInt := by
  rw [add, make_toInt, signedInt_signedSum, ← toInt_eq, ← toInt_eq, toInt_ofInt]

theorem toInt_sub (w v : Word) : (w.sub v).toInt = (ofInt (w.toInt - v.toInt)).toInt := by
  rw [sub, toInt_add, toInt_neg, sub_eq_add_neg]

theorem add_sign (w v : Word) :
    SumSign (w.negative, w.magnitude) (v.negative, v.magnitude) (w.add v).negative := by
  rw [add, make_negative]
  exact signedSum_sign _ _

theorem sub_sign (w v : Word) :
    SumSign (w.negative, w.magnitude) (!v.negative, v.magnitude) (w.sub v).negative := by
  rw [sub, ← neg_negative, ← neg_magnitude v]
  exact add_sign w v.neg

theorem add_neg (w : Word) : w.add w.neg = make w.negative 0 := by
  rw [add, neg_negative, neg_magnitude, signedSum, if_neg (by simp), if_pos le_rfl, Nat.sub_self]

/-! # Bits above the sign -/

theorem stored_negative (w : Word) : w.stored.negative = w.negative := by
  rw [negative, stored, toNat_ofNat (Nat.mod_lt _ (by decide)), Nat.mod_mul_left_div_self,
    Nat.mod_mod, ← negative]

theorem stored_magnitude (w : Word) : w.stored.magnitude = w.magnitude := by
  rw [magnitude, stored, toNat_ofNat (Nat.mod_lt _ (by decide)),
    Nat.mod_mod_of_dvd _ (Nat.dvd_mul_left _ _), ← magnitude]

theorem stored_add (w v : Word) : w.stored.add v = w.add v := by
  rw [add, stored_negative, stored_magnitude, ← add]

theorem add_stored (w v : Word) : w.add v.stored = w.add v := by
  rw [add, stored_negative, stored_magnitude, ← add]

theorem neg_stored (w : Word) : w.stored.neg = w.neg := by
  rw [neg, stored_negative, stored_magnitude, ← neg]

/-- Sums and differences of words: they have the exact value modulo the weight of the sign and
without a remainder if there is room, no bits above the sign are read or left, the sign follows the
larger magnitude and at a tie the first word. -/
theorem sums_of_signed_words (w v : Word) :
    ((w.add v).toInt ≡ w.toInt + v.toInt [ZMOD 2 ^ 35] ∧
      ((w.toInt + v.toInt).natAbs < 2 ^ 35 → (w.add v).toInt = w.toInt + v.toInt)) ∧
    ((w.sub v).toInt ≡ w.toInt - v.toInt [ZMOD 2 ^ 35] ∧
      ((w.toInt - v.toInt).natAbs < 2 ^ 35 → (w.sub v).toInt = w.toInt - v.toInt)) ∧
    (w.stored.add v.stored = w.add v ∧ w.stored.sub v.stored = w.sub v) ∧
    ((w.add v).toNat < 2 ^ 36 ∧ (w.sub v).toNat < 2 ^ 36) ∧
    (SumSign (w.negative, w.magnitude) (v.negative, v.magnitude) (w.add v).negative ∧
      SumSign (w.negative, w.magnitude) (!v.negative, v.magnitude) (w.sub v).negative) ∧
    (w.add v).toInt = (v.add w).toInt ∧ w.add w.neg = make w.negative 0 := by
  refine ⟨⟨?_, ?_⟩, ⟨?_, ?_⟩, ⟨?_, ?_⟩, ⟨make_fits _ _, make_fits _ _⟩,
    ⟨add_sign w v, sub_sign w v⟩, ?_, add_neg w⟩
  · rw [toInt_add]
    exact toInt_ofInt_modEq_weight _
  · intro hroom
    rw [toInt_add, toInt_ofInt_of_lt hroom]
  · rw [toInt_sub]
    exact toInt_ofInt_modEq_weight _
  · intro hroom
    rw [toInt_sub, toInt_ofInt_of_lt hroom]
  · rw [stored_add, add_stored]
  · rw [sub, neg_stored, stored_add, ← sub]
  · rw [toInt_add, toInt_add, add_comm]

/-- Five and minus five, which has stray bits above its sign, leave a zero with the sign of the first
one; their difference is exact. -/
theorem sums_of_signed_words_cancelled :
    let w := ofNat 0o17400000000005
    let v := ofNat 5
    (w.toInt + v.toInt).natAbs < 2 ^ 35 ∧ (w.add v).toInt = w.toInt + v.toInt ∧
      (w.toInt - v.toInt).natAbs < 2 ^ 35 ∧ (w.sub v).toInt = w.toInt - v.toInt ∧
      w.add v = make true 0 ∧ v.add w = make false 0 ∧ (w.add v).toInt = (v.add w).toInt := by
  intro w v
  have hsum : (w.toInt + v.toInt).natAbs < 2 ^ 35 := by decide
  have hdifference : (w.toInt - v.toInt).natAbs < 2 ^ 35 := by decide
  rcases sums_of_signed_words w v with ⟨⟨_, hadd⟩, ⟨_, hsub⟩, _, _, _, hcomm, _⟩
  exact ⟨hsum, hadd hsum, hdifference, hsub hdifference, by decide, by decide, hcomm⟩

end Word
end Ibm704

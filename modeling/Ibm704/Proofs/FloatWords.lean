import Ibm704.Number.FloatWord
import Ibm704.Proofs.NearestDouble

/-!
# Normal form of floating point words

Reading a floating point word and writing the number again moves the fraction up
until its first bit is set and takes as much from the characteristic.  Words that
would need a characteristic below the least one become zero, and so do words without
a fraction.  What is written is in normal form, and words in normal form stay.
-/

namespace Ibm704
namespace FloatWord

def Normal (magnitude : Nat) : Prop :=
  magnitude = 0 ∨ 2 ^ 26 ≤ magnitude % 2 ^ 27

theorem fractionLimit_eq : fractionLimit = 2 ^ 27 :=
  rfl

/-!
# Writing without rounding

A significand that a fraction can hold is not rounded.
-/

theorem bitLength_of_bounds {n k : Nat} (hlow : 2 ^ 26 ≤ n * 2 ^ k) (hhigh : n * 2 ^ k < 2 ^ 27) :
    bitLength n + k = 27 := by
  have hpower : 0 < 2 ^ k := Nat.two_pow_pos k
  have hn : 0 < n := Nat.pos_of_mul_pos_right (Nat.lt_of_lt_of_le (Nat.two_pow_pos 26) hlow)
  have hk : k < 27 := by
    have hless : 2 ^ k < 2 ^ 27 := (Nat.le_mul_of_pos_left _ hn).trans_lt hhigh
    exact (Nat.pow_lt_pow_iff_right (by decide)).mp hless
  have hmost : bitLength n ≤ 27 - k := by
    rw [bitLength_le_iff, ← Nat.mul_lt_mul_right hpower, ← pow_add, Nat.sub_add_cancel hk.le]
    exact hhigh
  have hleast : 26 - k < bitLength n := by
    rw [lt_bitLength_iff]
    apply Nat.le_of_mul_le_mul_right _ hpower
    rw [← pow_add, Nat.sub_add_cancel (Nat.le_of_lt_succ hk)]
    exact hlow
  omega

theorem exists_places {n : Nat} (hsome : n ≠ 0) (hless : n < 2 ^ 27) :
    ∃ k, 2 ^ 26 ≤ n * 2 ^ k ∧ n * 2 ^ k < 2 ^ 27 := by
  have hmost : bitLength n ≤ 27 := bitLength_le_iff.mpr hless
  have hleast : 0 < bitLength n := lt_bitLength_iff.mpr (Nat.pos_of_ne_zero hsome)
  refine ⟨27 - bitLength n, ?_, ?_⟩
  · have hfirst : 2 ^ (bitLength n - 1) ≤ n := lt_bitLength_iff.mp (by omega)
    calc 2 ^ 26 = 2 ^ (bitLength n - 1) * 2 ^ (27 - bitLength n) := by
          rw [← pow_add]
          congr 1
          omega
      _ ≤ n * 2 ^ (27 - bitLength n) := Nat.mul_le_mul_right _ hfirst
  · have hlast : n < 2 ^ bitLength n := bitLength_le_iff.mp le_rfl
    calc n * 2 ^ (27 - bitLength n) < 2 ^ bitLength n * 2 ^ (27 - bitLength n) :=
          Nat.mul_lt_mul_of_pos_right hlast (Nat.two_pow_pos _)
      _ = 2 ^ 27 := by
          rw [← pow_add]
          congr 1
          omega

theorem encode_exact {d : Double} {k : Nat} (hlow : 2 ^ 26 ≤ d.significand * 2 ^ k)
    (hhigh : d.significand * 2 ^ k < 2 ^ 27) :
    encode d = compose (d.exponent + 155 - k) (d.significand * 2 ^ k) := by
  have hlength := bitLength_of_bounds hlow hhigh
  have hsome : d.significand ≠ 0 := by
    rintro hzero
    rw [hzero, Nat.zero_mul] at hlow
    exact absurd hlow (by decide)
  have hplaces : (27 : Int) - bitLength d.significand = Int.ofNat k := by
    rw [Int.ofNat_eq_natCast]
    omega
  have hfraction : roundedFraction d = d.significand * 2 ^ k := by
    rw [roundedFraction, hplaces, Double.roundUp, Nat.shiftLeft_eq]
  have hexponent : exponentOf d + 128 = d.exponent + 155 - k := by
    rw [exponentOf]
    omega
  unfold encode
  rw [if_neg hsome, hfraction, if_neg (by rw [fractionLimit_eq]; omega), hexponent]

/-!
# Reading and writing

Exactly the words in normal form stay as they are.
-/

theorem encode_decode_zero {magnitude : Nat} (h : magnitude % 2 ^ 27 = 0) :
    encode (decode magnitude) = 0 :=
  if_pos h

theorem encode_decode {magnitude k : Nat} (hlow : 2 ^ 26 ≤ magnitude % 2 ^ 27 * 2 ^ k)
    (hhigh : magnitude % 2 ^ 27 * 2 ^ k < 2 ^ 27) :
    encode (decode magnitude) =
      if magnitude / 2 ^ 27 % 2 ^ 8 < k then 0
      else (magnitude / 2 ^ 27 % 2 ^ 8 - k) * 2 ^ 27 + magnitude % 2 ^ 27 * 2 ^ k := by
  have hcharacteristic : magnitude / 2 ^ 27 % 2 ^ 8 < 2 ^ 8 := Nat.mod_lt _ (by decide)
  have hexponent : (decode magnitude).exponent + 155 - k =
      (magnitude / 2 ^ 27 % 2 ^ 8 : Nat) - (k : Int) :=
    congrArg (· - (k : Int)) (Int.sub_add_cancel _ _)
  rw [encode_exact (d := decode magnitude) hlow hhigh, hexponent, compose]
  generalize magnitude / 2 ^ 27 % 2 ^ 8 = characteristic at hcharacteristic ⊢
  by_cases hless : characteristic < k
  · rw [if_pos (by omega), if_pos hless]
  · have hkept : ((characteristic : Int) - k).toNat % 256 = characteristic - k := by omega
    rw [if_neg (by omega), if_neg hless, hkept]
    rfl

theorem normal_encode_decode (magnitude : Nat) : Normal (encode (decode magnitude)) := by
  by_cases hzero : magnitude % 2 ^ 27 = 0
  · exact .inl (encode_decode_zero hzero)
  · rcases exists_places hzero (Nat.mod_lt _ (by decide)) with ⟨k, hlow, hhigh⟩
    rw [encode_decode hlow hhigh]
    split
    · exact .inl rfl
    · right
      rw [Nat.mul_add_mod_self_right, Nat.mod_eq_of_lt hhigh]
      exact hlow

theorem encode_decode_lt (magnitude : Nat) : encode (decode magnitude) < 2 ^ 35 := by
  by_cases hzero : magnitude % 2 ^ 27 = 0
  · rw [encode_decode_zero hzero]
    decide
  · rcases exists_places hzero (Nat.mod_lt _ (by decide)) with ⟨k, hlow, hhigh⟩
    have hcharacteristic : magnitude / 2 ^ 27 % 2 ^ 8 < 2 ^ 8 := Nat.mod_lt _ (by decide)
    rw [encode_decode hlow hhigh]
    split
    · decide
    · omega

theorem encode_decode_eq_iff (magnitude : Nat) :
    encode (decode magnitude) = magnitude % 2 ^ 35 ↔ Normal (magnitude % 2 ^ 35) := by
  have hfraction : magnitude % 2 ^ 35 % 2 ^ 27 = magnitude % 2 ^ 27 :=
    Nat.mod_mod_of_dvd magnitude (by decide)
  constructor
  · intro hsame
    rw [← hsame]
    exact normal_encode_decode magnitude
  · rintro (hzero | hset)
    · rw [hzero]
      apply encode_decode_zero
      omega
    · rw [hfraction] at hset
      have hless : magnitude % 2 ^ 27 < 2 ^ 27 := Nat.mod_lt _ (by decide)
      rw [encode_decode (k := 0) (by omega) (by omega), if_neg (Nat.not_lt_zero _)]
      omega

/-- Reading a floating point word and writing the number again gives the normal form of the word:
exactly zero and the words in normal form stay, and a second time nothing changes. -/
theorem float_words_normalized (magnitude : Nat) :
    (magnitude % 2 ^ 27 = 0 ∧ encode (decode magnitude) = 0 ∨
      ∃ k, 2 ^ 26 ≤ magnitude % 2 ^ 27 * 2 ^ k ∧ magnitude % 2 ^ 27 * 2 ^ k < 2 ^ 27 ∧
        encode (decode magnitude) =
          if magnitude / 2 ^ 27 % 2 ^ 8 < k then 0
          else (magnitude / 2 ^ 27 % 2 ^ 8 - k) * 2 ^ 27 + magnitude % 2 ^ 27 * 2 ^ k) ∧
    (encode (decode magnitude) = magnitude % 2 ^ 35 ↔
      magnitude % 2 ^ 35 = 0 ∨ 2 ^ 26 ≤ magnitude % 2 ^ 27) ∧
    encode (decode (encode (decode magnitude))) = encode (decode magnitude) := by
  refine ⟨?_, ?_, ?_⟩
  · by_cases hzero : magnitude % 2 ^ 27 = 0
    · exact .inl ⟨hzero, encode_decode_zero hzero⟩
    · rcases exists_places hzero (Nat.mod_lt _ (by decide)) with ⟨k, hlow, hhigh⟩
      exact .inr ⟨k, hlow, hhigh, encode_decode hlow hhigh⟩
  · rw [encode_decode_eq_iff, Normal, Nat.mod_mod_of_dvd magnitude (by decide)]
  · have hlow : encode (decode magnitude) % 2 ^ 35 = encode (decode magnitude) :=
      Nat.mod_eq_of_lt (encode_decode_lt magnitude)
    have hnormal := normal_encode_decode magnitude
    rw [← hlow] at hnormal
    exact ((encode_decode_eq_iff _).mpr hnormal).trans hlow

example : encode (decode 0o032000000001) = 0o000400000000 ∧ encode (decode 0o031000000001) = 0 := by
  decide

end FloatWord
end Ibm704

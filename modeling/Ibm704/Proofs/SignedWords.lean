import Mathlib.Data.Int.ModEq
import Ibm704.Proofs.Fields

/-!
# Integers in words and addresses

A word has a sign and 35 bits, so it keeps of an integer the remainder toward zero.
A value of 64 bits keeps its two's complement.  Both are right modulo the size of
core, and so give the address of the integer that they came from.
-/

namespace Ibm704

/-!
# Words

A word keeps of an integer the remainder by the weight of the sign, with the sign of
the integer.
-/

namespace Word

theorem toNat_ofNat {n : Nat} (h : n < 2 * signWeight) : (ofNat n).toNat = n := by
  simp only [ofNat, toNat, BitVec.toNat_ofNat]
  simp only [signWeight] at h
  omega

theorem toNat_make (negative : Bool) (magnitude : Nat) :
    (make negative magnitude).toNat =
      (if negative then signWeight else 0) + magnitude % signWeight := by
  have hrest : magnitude % signWeight < signWeight := Nat.mod_lt _ (by decide)
  apply toNat_ofNat
  cases negative <;> simp <;> omega

theorem make_negative (negative : Bool) (magnitude : Nat) :
    (make negative magnitude).negative = negative := by
  have hrest : magnitude % signWeight < signWeight := Nat.mod_lt _ (by decide)
  have hweight : 0 < signWeight := by decide
  rw [Word.negative, toNat_make]
  cases negative with
  | true =>
      rw [if_pos rfl, Nat.add_div_left _ hweight, Nat.div_eq_of_lt hrest]
      rfl
  | false =>
      rw [if_neg Bool.false_ne_true, Nat.zero_add, Nat.div_eq_of_lt hrest]
      rfl

theorem make_magnitude (negative : Bool) (magnitude : Nat) :
    (make negative magnitude).magnitude = magnitude % signWeight := by
  rw [Word.magnitude, toNat_make]
  cases negative with
  | true => rw [if_pos rfl, Nat.add_mod_left, Nat.mod_mod]
  | false => rw [if_neg Bool.false_ne_true, Nat.zero_add, Nat.mod_mod]

def signedInt (part : Bool × Nat) : Int :=
  if part.1 then -(part.2 : Int) else part.2

theorem toInt_eq (w : Word) : w.toInt = signedInt (w.negative, w.magnitude) :=
  rfl

theorem signedInt_natAbs (n : Int) : signedInt (decide (n < 0), n.natAbs) = n := by
  unfold signedInt
  dsimp only
  split
  · rename_i hsign
    have hless := of_decide_eq_true hsign
    omega
  · rename_i hsign
    have hless := of_decide_eq_false (Bool.eq_false_iff.mpr hsign)
    omega

theorem signedInt_mod (negative : Bool) (magnitude n : Nat) :
    signedInt (negative, magnitude % n) = (signedInt (negative, magnitude)).tmod n := by
  cases negative with
  | true => exact (congrArg Neg.neg (Int.ofNat_tmod magnitude n)).trans (Int.neg_tmod _ _).symm
  | false => exact Int.ofNat_tmod magnitude n

theorem tmod_modEq (n : Int) (m : Nat) : n.tmod m ≡ n [ZMOD m] :=
  Int.modEq_iff_dvd.mpr Int.dvd_self_sub_tmod

theorem tmod_of_natAbs_lt {n : Int} {m : Nat} (h : n.natAbs < m) : n.tmod m = n := by
  by_cases hsign : n < 0
  · have habs := Int.tmod_eq_of_lt (a := -n) (b := m) (by omega) (by omega)
    rw [Int.neg_tmod] at habs
    omega
  · exact Int.tmod_eq_of_lt (by omega) (by omega)

theorem make_toInt (negative : Bool) (magnitude : Nat) :
    (make negative magnitude).toInt = (signedInt (negative, magnitude)).tmod signWeight := by
  rw [toInt_eq, make_negative, make_magnitude, signedInt_mod]

theorem toInt_ofInt (n : Int) : (ofInt n).toInt = n.tmod signWeight := by
  rw [ofInt, make_toInt, signedInt_natAbs]

theorem toInt_ofInt_of_lt {n : Int} (h : n.natAbs < signWeight) : (ofInt n).toInt = n := by
  rw [toInt_ofInt, tmod_of_natAbs_lt h]

theorem toInt_ofInt_modEq_weight (n : Int) : (ofInt n).toInt ≡ n [ZMOD signWeight] := by
  rw [toInt_ofInt]
  exact tmod_modEq n signWeight

theorem toInt_ofInt_modEq (n : Int) : (ofInt n).toInt ≡ n [ZMOD 32768] :=
  (toInt_ofInt_modEq_weight n).of_dvd (by decide)

end Word

/-! # Addresses -/

theorem Address.ofInt_eq_of_modEq {a b : Int} (h : a ≡ b [ZMOD 32768]) : ofInt a = ofInt b :=
  eq_of_val (congrArg Int.toNat h)

theorem bmod_modEq (n : Int) : n.bmod (2 ^ 64) ≡ n [ZMOD 32768] :=
  Int.ModEq.of_dvd (by decide) Int.bmod_emod

theorem ofInt_toInt_ofInt (value : Int) :
    Address.ofInt (Int64.ofInt value).toInt = Address.ofInt value := by
  rw [Int64.toInt_ofInt]
  exact Address.ofInt_eq_of_modEq (bmod_modEq value)

end Ibm704

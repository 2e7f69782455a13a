import Ibm704.Word.Basic

/-!
# Fields as numbers

Reading a field divides the number of a word and takes a remainder.  Where the
low bits of a word are clear, putting bits there adds their number.  So address,
tag and decrement are read back from a word that is their sum.
-/

namespace Ibm704

theorem Address.eq_of_val {a b : Address} (h : a.val = b.val) : a = b := by
  cases a
  cases b
  simpa using h

namespace Word

theorem lowMask_toNat {width : Nat} (h : width ≤ 64) :
    (Field.lowMask width).toNat = 1 <<< width - 1 := by
  apply Nat.eq_of_testBit_eq
  intro i
  rw [Field.lowMask, BitVec.toNat_ushiftRight, BitVec.toNat_allOnes, Nat.testBit_shiftRight,
    Nat.testBit_two_pow_sub_one, Nat.one_shiftLeft, Nat.testBit_two_pow_sub_one]
  exact decide_eq_decide.mpr (by omega)

theorem get_eq (w : Word) {f : Field} (h : f.width ≤ 64) :
    w.get f = (w.toNat >>> f.shift) % (1 <<< f.width) := by
  rw [get, BitVec.toNat_and, lowMask_toNat h, BitVec.toNat_ushiftRight, Nat.one_shiftLeft,
    Nat.and_two_pow_sub_one_eq_mod]
  rfl

theorem address_val (w : Word) : w.address.val = w.toNat % 32768 := by
  have hget := w.get_eq (f := .address) (by decide)
  rw [address, hget]
  show (w.toNat >>> 0) % 32768 % 65536 = _
  rw [Nat.shiftRight_zero]
  omega

theorem tag_eq (w : Word) : w.tag = w.toNat / 32768 % 8 := by
  have hget := w.get_eq (f := .tag) (by decide)
  rw [tag, hget, Nat.shiftRight_eq_div_pow]
  rfl

theorem decrement_eq (w : Word) : w.decrement = w.toNat / 262144 % 32768 := by
  have hget := w.get_eq (f := .decrement) (by decide)
  rw [decrement, hget, Nat.shiftRight_eq_div_pow]
  rfl

theorem toNat_or_ofNat {w : Word} {bits n : Nat} (hbits : bits ≤ 64)
    (hw : w.toNat % (1 <<< bits) = 0) (hn : n < 1 <<< bits) :
    (w.or (ofNat n)).toNat = w.toNat + n := by
  have hnumber : (ofNat n).toNat = n := by
    have hwide : 1 <<< bits ≤ 18446744073709551616 := by
      rw [Nat.one_shiftLeft]
      exact Nat.pow_le_pow_right (by decide) hbits
    exact Nat.mod_eq_of_lt (Nat.lt_of_lt_of_le hn hwide)
  have hhigh : w.toNat = (w.toNat >>> bits) <<< bits := by
    rw [Nat.one_shiftLeft] at hw
    rw [Nat.shiftRight_eq_div_pow, Nat.shiftLeft_eq, Nat.div_mul_cancel (Nat.dvd_of_mod_eq_zero hw)]
  have hor : (w.or (ofNat n)).toNat = w.toNat ||| (ofNat n).toNat :=
    BitVec.toNat_or _ _
  rw [Nat.one_shiftLeft] at hn
  rw [hor, hnumber, hhigh]
  exact (Nat.shiftLeft_add_eq_or_of_lt hn _).symm

theorem fields_of_sum {w : Word} {address tag decrement : Nat} (haddress : address < 32768)
    (htag : tag < 8) (hdecrement : decrement < 32768)
    (hw : w.toNat = address + tag <<< 15 + decrement <<< 18) :
    w.address.val = address ∧ w.tag = tag ∧ w.decrement = decrement := by
  rw [Nat.shiftLeft_eq, Nat.shiftLeft_eq] at hw
  refine ⟨?_, ?_, ?_⟩
  · rw [address_val]
    omega
  · rw [tag_eq]
    omega
  · rw [decrement_eq]
    omega

end Word
end Ibm704

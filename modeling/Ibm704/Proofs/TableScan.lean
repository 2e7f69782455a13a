import Ibm704.Proofs.FieldLenses
import Ibm704.Proofs.Reassembly

/-!
# Reading words by a scan of the table

The order of a word can be found without the index.  A scan of the table gives the
largest template that is not above the word, and then the order that is preferred
for it.  Where this template fixes an address other than that of the word, the
scan goes backwards and looks for the operation alone.
-/

namespace Ibm704

namespace Word

theorem stored_toNat (w : Word) : w.stored.toNat = w.toNat % 2 ^ 36 :=
  toNat_ofNat (Nat.mod_lt _ (by decide))

theorem stored_address (w : Word) : w.stored.address = w.address := by
  apply Address.eq_of_val
  rw [address_val, address_val, stored_toNat]
  omega

theorem withAddress_zero_bits (w : Word) : (w.withAddress .zero).bits = w.bits >>> 15 <<< 15 := by
  apply BitVec.eq_of_getLsbD_eq
  intro i hi
  have hcovers : Field.address.Covers i ↔ i < 15 :=
    ⟨fun h => Nat.lt_of_lt_of_eq h.2 rfl, fun h => ⟨Nat.zero_le i, h⟩⟩
  rw [withAddress, getLsbD_set, BitVec.getLsbD_shiftLeft, BitVec.getLsbD_ushiftRight]
  by_cases hlow : i < 15
  · rw [if_pos (hcovers.mpr hlow)]
    simp [hlow, Address.zero, Address.ofNat]
  · have hindex : 15 + (i - 15) = i := by omega
    rw [if_neg (mt hcovers.mp hlow), hindex]
    simp [hlow, hi]

theorem withAddress_zero_toNat (w : Word) :
    (w.withAddress .zero).toNat = w.toNat / 2 ^ 15 * 2 ^ 15 := by
  rw [toNat, withAddress_zero_bits, BitVec.toNat_shiftLeft, BitVec.toNat_ushiftRight,
    Nat.shiftLeft_eq, Nat.shiftRight_eq_div_pow, toNat]
  omega

end Word

namespace Order

/-- The template is the largest of the table that is not above what storage keeps of the word. -/
structure NearestTo (w template : Word) : Prop where
  listed : ∃ order ∈ table, order.template = template
  notAbove : template.toNat ≤ w.toNat % 2 ^ 36
  largest : ∀ order ∈ table, order.template.toNat ≤ w.toNat % 2 ^ 36 →
    order.template.toNat ≤ template.toNat

def lastCleared? (template : Word) (orders : List Order) : Option Order :=
  orders.reverse.find? fun order =>
    order.constant = false ∧ order.template.toNat = template.toNat / 2 ^ 15 * 2 ^ 15

theorem lastCleared?_eq (template : Word) :
    lastCleared? template table = sense? (template.withAddress .zero) := by
  unfold lastCleared? sense?
  congr 1
  funext order
  have hsame : order.template = template.withAddress .zero ↔
      order.template.toNat = template.toNat / 2 ^ 15 * 2 ^ 15 := by
    rw [← Word.withAddress_zero_toNat]
    exact ⟨congrArg Word.toNat, Word.eq_of_toNat⟩
  have haddress : order.template.toNat = template.toNat / 2 ^ 15 * 2 ^ 15 →
      order.template.address.val = 0 := by
    intro hcleared
    rw [Word.address_val]
    omega
  rw [Bool.eq_iff_iff]
  simp only [decide_eq_true_eq, Bool.and_eq_true, Bool.not_eq_true', beq_iff_eq, hsame]
  tauto

theorem ofWord?_stored (w : Word) : ofWord? w.stored = ofWord? w := by
  unfold ofWord?
  rw [w.stored_address, w.stored_fits.stored]

theorem exists_nearest_stored (w : Word) : ∃ found, nearest? w.stored = some found := by
  rcases exists_prefix_template 0 (by decide) with ⟨order, horder, hzero⟩
  refine exists_nearest horder ?_
  rw [hzero]
  exact Nat.zero_le _

/-- Every word is read as an order, and it is the one that a scan of the table finds. -/
theorem words_read_by_scan (w : Word) :
    ∃ template order, NearestTo w template ∧ ofWord? w = some order ∧
      (if template.address.val = 0 ∨ w.address = template.address then
        preferred? template table
      else
        lastCleared? template table) = some order := by
  rcases exists_nearest_stored w with ⟨found, hfound⟩
  rcases nearest?_spec hfound with ⟨hpreferred, hle, hlargest⟩
  have hmem := (preferred?_mem hpreferred).1
  rw [w.stored_toNat] at hle hlargest
  have hnearest : NearestTo w found.template := ⟨⟨found, hmem, rfl⟩, hle, hlargest⟩
  rw [← ofWord?_stored]
  by_cases hplain : found.template.address.val = 0 ∨ w.address = found.template.address
  · refine ⟨found.template, found, hnearest, ?_, ?_⟩
    · rw [← w.stored_address] at hplain
      exact ofWord?_of_nearest w.stored_fits hfound hplain
    · rw [if_pos hplain, hpreferred]
  · rcases not_or.mp hplain with ⟨hfixed, hother⟩
    rcases fixed_template found hmem hfixed with ⟨_, sense, _, hsense, _⟩
    refine ⟨found.template, sense, hnearest, ?_, ?_⟩
    · rw [← w.stored_address] at hother
      exact ofWord?_of_sense w.stored_fits hfound hfixed hother hsense
    · rw [if_neg hplain, lastCleared?_eq, hsense]

end Order
end Ibm704

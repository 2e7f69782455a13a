import Ibm704.Instruction
import Ibm704.Proofs.Fields
import Ibm704.Proofs.NearestTemplate
import Ibm704.Proofs.StoredWords

/-!
# Reading what was assembled

An order leaves the bits of its operands clear in its template, so a word that
was assembled is the template and the operands as a sum.  If no other template
lies between the template and the largest of these words, the word is read as
its order.  The templates that fix an address lie close to each other: there a
word with another address is read as the sense order of the operation.
-/

namespace Ibm704
namespace Order

/-!
# Orders that can be read back

The operate orders share two operations and fix an address, by which they are told
apart.  A word of a sense order is read back only if its address selects none of them.
-/

def operates (order : Order) : Bool :=
  order.template.get .signedOperation == 0o0760 || order.template.get .signedOperation == 0o4760

def IsSense (order : Order) : Prop :=
  order.mnemonic = .ofString "PSE" ∨ order.mnemonic = .ofString "MSE"

instance (order : Order) : Decidable order.IsSense :=
  inferInstanceAs (Decidable (_ ∨ _))

/-- The address is that of no order that has the same operation and fixes an address. -/
def SelectsNone (order : Order) (address : Nat) : Prop :=
  ∀ other ∈ table,
    other.template.get .signedOperation = order.template.get .signedOperation →
      other.template.address.val ≠ 0 → other.template.address.val ≠ address

inductive ReadBack (order : Order) (address tag : Nat) : Prop where
  | instruction (hconstant : order.constant = false) (hoperates : order.operates = false)
  | minusOne (hmnemonic : order.mnemonic = .ofString "MON")
  | sense (hsense : order.IsSense) (hnone : order.SelectsNone address)
      (hnonzero : order.mnemonic = .ofString "PSE" → ¬ (address = 0 ∧ tag = 0))
  | operate (hoperates : order.operates = true)
      (hfixed : order.template.address.val ≠ 0 ∨ order.mnemonic = .ofString "CLM")
      (haddress : address = 0) (htag : tag = 0)

/-!
# Room for operands

Operands take 33 bits with a decrement and 18 bits without one.
-/

def operandBits (order : Order) : Nat :=
  if order.hasDecrement then 33 else 18

theorem operands_lt {order : Order} {address tag decrement : Nat} (haddress : address < 32768)
    (htag : tag < 8) (hdecrement : decrement < 32768)
    (hnone : order.hasDecrement = false → decrement = 0) :
    address + tag <<< 15 + decrement <<< 18 < 1 <<< order.operandBits := by
  unfold operandBits
  rw [Nat.shiftLeft_eq, Nat.shiftLeft_eq]
  cases hdec : order.hasDecrement with
  | false =>
      have hzero := hnone hdec
      show _ < 262144
      omega
  | true =>
      show _ < 8589934592
      omega

theorem operands_clear : ∀ order ∈ table, order.template.address.val = 0 →
    order.template.toNat % (1 <<< order.operandBits) = 0 := by
  decide +kernel

theorem assemble_toNat {order : Order} {address tag decrement : Nat}
    (hclear : order.template.toNat % (1 <<< order.operandBits) = 0)
    (hoperands : address + tag <<< 15 + decrement <<< 18 < 1 <<< order.operandBits) :
    (order.assemble address tag decrement).toNat =
      order.template.toNat + (address + tag <<< 15 + decrement <<< 18) := by
  have hbits : order.operandBits ≤ 64 := by
    unfold operandBits
    split <;> decide
  exact Word.toNat_or_ofNat hbits hclear hoperands

theorem assemble_fits {order : Order} (horder : order ∈ table) {address tag decrement : Nat}
    (hoperands : address + tag <<< 15 + decrement <<< 18 < 1 <<< order.operandBits) :
    (order.assemble address tag decrement).Fits := by
  have hroom : 1 <<< order.operandBits ≤ 2 * Word.signWeight := by
    unfold operandBits
    split <;> decide
  exact (table_fits order horder).or (Word.ofNat_fits (Nat.lt_of_lt_of_le hoperands hroom))

/-! # The order of a word -/

theorem ofWord?_of_nearest {w : Word} {order : Order} (hfits : w.Fits)
    (hnearest : nearest? w = some order)
    (haddress : order.template.address.val = 0 ∨ w.address = order.template.address) :
    ofWord? w = some order := by
  have hplain : ¬ (order.template.address.val ≠ 0 ∧ w.address ≠ order.template.address) := by
    rintro ⟨hfixed, hother⟩
    rcases haddress with hzero | hsame
    · exact hfixed hzero
    · exact hother hsame
  simp only [ofWord?, hfits.stored, hnearest, Option.bind_eq_bind, Option.bind_some, if_neg hplain]
  rfl

theorem ofWord?_of_sense {w : Word} {found order : Order} (hfits : w.Fits)
    (hnearest : nearest? w = some found) (hfixed : found.template.address.val ≠ 0)
    (hother : w.address ≠ found.template.address)
    (hsense : sense? (found.template.withAddress .zero) = some order) :
    ofWord? w = some order := by
  simp only [ofWord?, hfits.stored, hnearest, Option.bind_eq_bind, Option.bind_some,
    if_pos (And.intro hfixed hother), hsense]
  rfl

/-!
# Orders alone in their room

Most orders are the only ones that words with their operands can be read as, which is
checked for the whole table.
-/

def Alone (order : Order) : Prop :=
  preferred? order.template table = some order ∧ order.template.address.val = 0 ∧
    ∀ other ∈ table, other.template.toNat ≤ order.template.toNat ∨
      order.template.toNat + 1 <<< order.operandBits ≤ other.template.toNat

instance (order : Order) : Decidable order.Alone :=
  inferInstanceAs (Decidable (_ ∧ _ ∧ _))

theorem instruction_alone : ∀ order ∈ table,
    order.constant = false ∧ order.operates = false ∨ order.mnemonic = .ofString "MON" →
      order.Alone := by
  decide +kernel

theorem Alone.ofWord? {order : Order} (h : order.Alone) {w : Word} (hfits : w.Fits)
    (hfrom : order.template.toNat ≤ w.toNat)
    (hbelow : w.toNat < order.template.toNat + 1 <<< order.operandBits) :
    Order.ofWord? w = some order := by
  rcases h with ⟨hpreferred, haddress, hroom⟩
  apply ofWord?_of_nearest hfits _ (.inl haddress)
  apply nearest?_eq hpreferred hfrom
  intro other hmem hother
  rcases hroom other hmem with hle | habove
  · exact hle
  · omega

/-!
# Operations selected by an address

The nearest template fixes an address: the one just above that of the order is not
above the word.
-/

theorem operate_preferred : ∀ order ∈ table, order.operates = true →
    order.template.address.val ≠ 0 ∨ order.mnemonic = .ofString "CLM" →
      preferred? order.template table = some order := by
  decide +kernel

theorem operate_decrement : ∀ order ∈ table, order.operates = true →
    order.hasDecrement = false := by
  decide +kernel

theorem minusSense_preferred : ∀ order ∈ table, order.mnemonic = .ofString "MSE" →
    preferred? order.template table = some order := by
  decide +kernel

theorem ofWord?_template {order : Order} (horder : order ∈ table)
    (hpreferred : preferred? order.template table = some order) :
    ofWord? order.template = some order :=
  ofWord?_of_nearest (table_fits order horder)
    (nearest?_eq hpreferred (Nat.le_refl _) fun _ _ h => h) (.inr rfl)

theorem sense_first : ∀ order ∈ table, order.IsSense →
    ∃ other ∈ table, other.template.toNat = order.template.toNat + 1 := by
  decide +kernel

theorem sense_room : ∀ order ∈ table, order.IsSense →
    order.hasDecrement = false ∧ order.template.address.val = 0 ∧
      ∀ other ∈ table, order.template.toNat < other.template.toNat →
        order.template.toNat + 262144 ≤ other.template.toNat ∨
          (other.template.get .signedOperation = order.template.get .signedOperation ∧
            other.template.address.val ≠ 0 ∧
            sense? (other.template.withAddress .zero) = some order) := by
  decide +kernel

theorem ofWord?_sense {order : Order} (horder : order ∈ table) (hsense : order.IsSense) {w : Word}
    (hfits : w.Fits) (habove : order.template.toNat < w.toNat)
    (hbelow : w.toNat < order.template.toNat + 262144) (hnone : order.SelectsNone w.address.val) :
    ofWord? w = some order := by
  rcases sense_room order horder hsense with ⟨_, _, hroom⟩
  rcases sense_first order horder hsense with ⟨first, hfirst, hnext⟩
  rcases exists_nearest horder (Nat.le_of_lt habove) with ⟨found, hfound⟩
  rcases nearest?_spec hfound with ⟨hpreferred, hle, hlargest⟩
  have hmem := (preferred?_mem hpreferred).1
  have hfoundAbove : order.template.toNat < found.template.toNat := by
    have hatLeast := hlargest first hfirst (by omega)
    omega
  rcases hroom found hmem hfoundAbove with hfar | ⟨hoperation, hfixed, hword⟩
  · omega
  · apply ofWord?_of_sense hfits hfound hfixed _ hword
    intro hsame
    exact hnone found hmem hoperation hfixed (by rw [hsame])

end Order

/-!
# Words that were assembled

Taking the template off the word leaves the operands.
-/

namespace Instruction

theorem residual_toNat {w : Word} {order : Order} {n : Nat}
    (h : w.toNat = order.template.toNat + n) : (residual w order).toNat = n := by
  have hle : order.template.bits ≤ w.bits := by
    show order.template.toNat ≤ w.toNat
    rw [h]
    exact Nat.le_add_right _ _
  have hrest : (residual w order).toNat = w.toNat - order.template.toNat :=
    BitVec.toNat_sub_of_le hle
  rw [hrest, h, Nat.add_sub_cancel_left]

theorem ofWord_eq {w : Word} {order : Order} {address tag decrement : Nat} (hfits : w.Fits)
    (horder : Order.ofWord? w = some order) (haddress : address < 32768) (htag : tag < 8)
    (hdecrement : decrement < 32768)
    (hw : w.toNat = order.template.toNat + (address + tag <<< 15 + decrement <<< 18)) :
    ofWord w = ⟨w, some order, .ofNat address, tag, decrement⟩ := by
  rcases Word.fields_of_sum haddress htag hdecrement (residual_toNat hw) with
    ⟨hfirst, hsecond, hthird⟩
  have hfield : (residual w order).address = .ofNat address := by
    apply Address.eq_of_val
    show _ = address % 65536
    rw [hfirst]
    omega
  unfold ofWord
  rw [hfits.stored]
  dsimp only
  rw [horder]
  show Instruction.mk w (some order) (residual w order).address (residual w order).tag
    (residual w order).decrement = _
  rw [hfield, hsecond, hthird]

end Instruction

namespace Order

theorem Alone.ofWord_assemble {order : Order} (h : order.Alone) (horder : order ∈ table)
    {address tag decrement : Nat} (haddress : address < 32768) (htag : tag < 8)
    (hdecrement : decrement < 32768) (hnone : order.hasDecrement = false → decrement = 0) :
    Instruction.ofWord (order.assemble address tag decrement) =
      ⟨order.assemble address tag decrement, some order, .ofNat address, tag, decrement⟩ := by
  have hoperands := operands_lt haddress htag hdecrement hnone
  have hfits := assemble_fits horder hoperands
  have hnumber := assemble_toNat (operands_clear order horder h.2.1) hoperands
  have hread : Order.ofWord? (order.assemble address tag decrement) = some order := by
    apply h.ofWord? hfits
    · omega
    · omega
  exact Instruction.ofWord_eq hfits hread haddress htag hdecrement hnumber

theorem assemble_zero (order : Order) : order.assemble 0 0 0 = order.template :=
  Word.or_zero order.template

theorem ofWord_template {order : Order} (horder : order ∈ table)
    (hpreferred : preferred? order.template table = some order) :
    Instruction.ofWord (order.assemble 0 0 0) =
      ⟨order.assemble 0 0 0, some order, .ofNat 0, 0, 0⟩ := by
  rw [assemble_zero]
  apply Instruction.ofWord_eq (table_fits order horder) (ofWord?_template horder hpreferred)
  · decide
  · decide
  · decide
  · rfl

theorem IsSense.ofWord_assemble {order : Order} (h : order.IsSense) (horder : order ∈ table)
    {address tag : Nat} (haddress : address < 32768) (htag : tag < 8)
    (hselects : order.SelectsNone address)
    (hnonzero : order.mnemonic = .ofString "PSE" → ¬ (address = 0 ∧ tag = 0)) :
    Instruction.ofWord (order.assemble address tag 0) =
      ⟨order.assemble address tag 0, some order, .ofNat address, tag, 0⟩ := by
  rcases sense_room order horder h with ⟨hdecrement, hzero, _⟩
  have hclear := operands_clear order horder hzero
  have hbits : order.operandBits = 18 := by
    rw [operandBits, hdecrement]
    rfl
  have hoperands : address + tag <<< 15 + 0 <<< 18 < 1 <<< order.operandBits :=
    operands_lt haddress htag (Nat.zero_lt_succ _) fun _ => rfl
  have hfits := assemble_fits horder hoperands
  have hnumber := assemble_toNat hclear hoperands
  by_cases hnothing : address = 0 ∧ tag = 0
  · rcases hnothing with ⟨rfl, rfl⟩
    rcases h with hplus | hminus
    · exact absurd ⟨rfl, rfl⟩ (hnonzero hplus)
    · exact ofWord_template horder (minusSense_preferred order horder hminus)
  · have hclear : order.template.toNat % 262144 = 0 := by rwa [hbits] at hclear
    have hfield : (order.assemble address tag 0).address.val = address := by
      rw [Word.address_val, hnumber, Nat.shiftLeft_eq, Nat.zero_shiftLeft]
      omega
    have hread : Order.ofWord? (order.assemble address tag 0) = some order := by
      rw [Nat.shiftLeft_eq, Nat.zero_shiftLeft] at hnumber
      apply ofWord?_sense horder h hfits
      · omega
      · omega
      · rw [hfield]
        exact hselects
    exact Instruction.ofWord_eq hfits hread haddress htag (Nat.zero_lt_succ _) hnumber

theorem assemble_eq_or {address tag : Nat} (haddress : address < 32768) (htag : tag < 8)
    (order : Order) (decrement : Nat) :
    order.assemble address tag decrement =
      ((order.template.or (.ofNat address)).or (.ofNat (tag <<< 15))).or
        (.ofNat (decrement <<< 18)) := by
  rw [assemble, fields_eq_or haddress htag, Word.or_assoc, Word.or_assoc, Word.or_assoc]

theorem orderWord_eq_assemble {address tag decrement : Nat} (haddress : address < 32768)
    (htag : tag < 8) (hdecrement : decrement < 32768) (order : Order) :
    SecondPass.orderWord order.template [(address : Int), tag, decrement] =
      order.assemble address tag decrement := by
  have hfirst : lowBits 15 address = address := Nat.mod_eq_of_lt haddress
  have hsecond : lowBits 3 tag = tag := Nat.mod_eq_of_lt htag
  have hthird : lowBits 15 decrement = decrement := Nat.mod_eq_of_lt hdecrement
  show order.template.or (.ofNat (lowBits 15 address + lowBits 3 tag <<< 15 +
    lowBits 15 decrement <<< 18)) = _
  rw [hfirst, hsecond, hthird]
  rfl

end Order

/-- The word of an order with its operands is read as that order with those operands: for all
instructions whose address selects nothing and for MON; for sense orders if the address selects no
other order, CLM without operands coming before PSE; and for orders with a fixed address and CLM
without operands. -/
theorem instructions_read_back {order : Order} (horder : order ∈ Order.table)
    {address tag decrement : Nat} (haddress : address < 32768) (htag : tag < 8)
    (hdecrement : decrement < 32768) (hnone : order.hasDecrement = false → decrement = 0)
    (hread : order.ReadBack address tag) :
    order.assemble address tag decrement =
        ((order.template.or (.ofNat address)).or (.ofNat (tag <<< 15))).or
          (.ofNat (decrement <<< 18)) ∧
      SecondPass.orderWord order.template [(address : Int), tag, decrement] =
        order.assemble address tag decrement ∧
      Instruction.ofWord (order.assemble address tag decrement) =
        ⟨order.assemble address tag decrement, some order, .ofNat address, tag, decrement⟩ := by
  refine ⟨Order.assemble_eq_or haddress htag order decrement,
    Order.orderWord_eq_assemble haddress htag hdecrement order, ?_⟩
  cases hread with
  | instruction hconstant hoperates =>
      have halone := Order.instruction_alone order horder (.inl ⟨hconstant, hoperates⟩)
      exact halone.ofWord_assemble horder haddress htag hdecrement hnone
  | minusOne hmnemonic =>
      have halone := Order.instruction_alone order horder (.inr hmnemonic)
      exact halone.ofWord_assemble horder haddress htag hdecrement hnone
  | sense hsense hselects hnonzero =>
      have hzero := hnone (Order.sense_room order horder hsense).1
      subst hzero
      exact hsense.ofWord_assemble horder haddress htag hselects hnonzero
  | operate hoperates hfixed hnoAddress hnoTag =>
      have hzero := hnone (Order.operate_decrement order horder hoperates)
      subst hzero hnoAddress hnoTag
      exact Order.ofWord_template horder (Order.operate_preferred order horder hoperates hfixed)

/-- The largest operands of an order with a decrement, and a sense order between two orders. -/
theorem instructions_read_back_extreme :
    (Instruction.ofWord (.ofNat 0o777777777777) =
      ⟨.ofNat 0o777777777777, some (.indexTransfer "TXL" .minus 3 "Transfer on index low or equal"),
        .ofNat 0o77777, 7, 0o77777⟩) ∧
    Instruction.ofWord (.ofNat 0o076000100011) =
      ⟨.ofNat 0o076000100011, some (.variant "PSE" .plus 0o0760 0o0000 "Plus sense"),
        .ofNat 0o11, 1, 0⟩ := by
  have hlast := (@instructions_read_back
    (.indexTransfer "TXL" .minus 3 "Transfer on index low or equal") (by decide +kernel)
    0o77777 7 0o77777 (by decide) (by decide) (by decide) (by decide)
    (.instruction (by decide) (by decide))).2.2
  have hsense := (@instructions_read_back
    (.variant "PSE" .plus 0o0760 0o0000 "Plus sense") (by decide +kernel)
    0o11 1 0 (by decide) (by decide) (by decide) (by decide)
    (.sense (by decide +kernel) (by unfold Order.SelectsNone; decide +kernel) (by decide))).2.2
  exact ⟨hlast, hsense⟩

end Ibm704

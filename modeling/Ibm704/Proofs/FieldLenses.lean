import Ibm704.Proofs.Fields
import Mathlib.Algebra.Group.Nat.Defs
import Mathlib.Data.List.Pairwise
import Mathlib.Logic.Function.Conjugate

/-!
# Fields as lenses

A store into a field is said bit by bit: the bits that the field covers are those of
the value, all others stay.  A field may reach beyond bit 63, or lie beyond it as a
whole; what it covers there is no part of the word.  From this come the laws of
reading and storing, and stores into fields without a common bit can change places.
-/

namespace Ibm704

namespace Word

namespace Field

def Covers (f : Field) (i : Nat) : Prop :=
  f.shift ≤ i ∧ i < f.shift + f.width

instance (f : Field) (i : Nat) : Decidable (f.Covers i) :=
  inferInstanceAs (Decidable (f.shift ≤ i ∧ i < f.shift + f.width))

def Apart (f g : Field) : Prop :=
  ∀ i, f.Covers i → ¬g.Covers i

theorem apart_of_le {f g : Field} (h : f.shift + f.width ≤ g.shift) : f.Apart g := by
  intro i hf hg
  exact absurd (Nat.lt_of_lt_of_le hf.2 h) (Nat.not_lt.mpr hg.1)

theorem getLsbD_lowMask (width i : Nat) :
    (lowMask width).getLsbD i = decide (i < 64 ∧ i < width) := by
  rw [lowMask, BitVec.getLsbD_ushiftRight, BitVec.getLsbD_allOnes]
  exact decide_eq_decide.mpr (by omega)

theorem getLsbD_mask (f : Field) (i : Nat) :
    f.mask.getLsbD i = decide (i < 64 ∧ f.Covers i) := by
  rw [mask, BitVec.getLsbD_shiftLeft, getLsbD_lowMask, Bool.eq_iff_iff]
  simp only [Bool.and_eq_true, Bool.not_eq_true', decide_eq_true_eq, decide_eq_false_iff_not]
  rw [Covers]
  omega

end Field

theorem eq_of_getLsbD {w v : Word} (h : ∀ i < 64, w.bits.getLsbD i = v.bits.getLsbD i) : w = v := by
  cases w
  cases v
  exact congrArg Word.mk (BitVec.eq_of_getLsbD_eq h)

/-!
# One store

A store changes the bits that the field covers, to those of the value, and no others.
-/

theorem testBit_get (w : Word) (f : Field) (i : Nat) :
    (w.get f).testBit i = (decide (i < f.width) && w.bits.getLsbD (f.shift + i)) := by
  show ((w.bits >>> f.shift) &&& Field.lowMask f.width).getLsbD i = _
  rw [BitVec.getLsbD_and, BitVec.getLsbD_ushiftRight, Field.getLsbD_lowMask, Bool.and_comm]
  by_cases hi : i < 64
  · simp [hi]
  · -- the mask ends at bit 63 however wide the field is, but no bit of the word comes from above
    rw [BitVec.getLsbD_of_ge _ _ (by omega), Bool.and_false, Bool.and_false]

theorem getLsbD_set (w : Word) (f : Field) (value i : Nat) :
    (w.set f value).bits.getLsbD i =
      if f.Covers i then decide (i < 64) && value.testBit (i - f.shift) else w.bits.getLsbD i := by
  by_cases hi : i < 64
  · rw [set, BitVec.getLsbD_or, BitVec.getLsbD_and, BitVec.getLsbD_and, BitVec.getLsbD_not,
      Field.getLsbD_mask, BitVec.getLsbD_shiftLeft, BitVec.getLsbD_ofNat]
    by_cases hcovers : f.Covers i
    · -- a field that covers a bit of the word starts in the word, so its shift is not cut to 64
      have hshift : min f.shift 64 = f.shift :=
        Nat.min_eq_left (Nat.le_of_lt (Nat.lt_of_le_of_lt hcovers.1 hi))
      have hinside : ¬i < f.shift := Nat.not_lt.mpr hcovers.1
      simp [hi, hcovers, hshift, hinside, show i - f.shift < 64 by omega]
    · simp [hi, hcovers]
  · rw [BitVec.getLsbD_of_ge _ _ (by omega), BitVec.getLsbD_of_ge _ _ (by omega)]
    simp [hi]

theorem getLsbD_set_outside (w : Word) {f : Field} (value : Nat) {i : Nat} (h : ¬f.Covers i) :
    (w.set f value).bits.getLsbD i = w.bits.getLsbD i := by
  rw [getLsbD_set, if_neg h]

theorem get_set (w : Word) (f : Field) (value : Nat) :
    (w.set f value).get f = value % 2 ^ min f.width (64 - f.shift) := by
  apply Nat.eq_of_testBit_eq
  intro i
  rw [testBit_get, Nat.testBit_mod_two_pow]
  by_cases hi : i < f.width
  · have hcovers : f.Covers (f.shift + i) := ⟨by omega, by omega⟩
    have hroom : f.shift + i < 64 ↔ i < min f.width (64 - f.shift) := by omega
    rw [getLsbD_set, if_pos hcovers, Nat.add_sub_cancel_left, decide_eq_decide.mpr hroom,
      decide_eq_true hi, Bool.true_and]
  · have hnone : ¬i < min f.width (64 - f.shift) := by omega
    simp [hi, hnone]

theorem set_get (w : Word) (f : Field) : w.set f (w.get f) = w := by
  apply eq_of_getLsbD
  intro i hi
  rw [getLsbD_set]
  split
  · next hcovers =>
    have hoffset : i - f.shift < f.width := Nat.sub_lt_left_of_lt_add hcovers.1 hcovers.2
    rw [testBit_get, Nat.add_sub_of_le hcovers.1]
    simp [hi, hoffset]
  · rfl

/-!
# Shifts that lose bits

The low bits are a shifted bit less one.  Where the bit is lost, one is taken from
zero and all 64 bits are set.
-/

theorem lowMask_eq_sub (width : Nat) : Field.lowMask width = (1#64 <<< width) - 1#64 := by
  by_cases hwidth : width < 64
  · have hlt : 2 ^ width < 2 ^ 64 := Nat.pow_lt_pow_right (by decide) hwidth
    have hpos : 0 < 2 ^ width := Nat.two_pow_pos width
    have hbit : (1#64 <<< width).toNat = 2 ^ width := by
      rw [BitVec.toNat_shiftLeft, BitVec.toNat_one (by decide), Nat.one_shiftLeft,
        Nat.mod_eq_of_lt hlt]
    apply BitVec.eq_of_toNat_eq
    rw [lowMask_toNat (Nat.le_of_lt hwidth), Nat.one_shiftLeft, BitVec.toNat_sub, hbit,
      BitVec.toNat_one (by decide)]
    omega
  · have hlost : 64 ≤ width := Nat.not_lt.mp hwidth
    rw [BitVec.shiftLeft_eq_zero hlost, Field.lowMask, Nat.sub_eq_zero_of_le hlost]
    rfl

theorem shiftLeft_min (bits : BitVec 64) (n : Nat) : bits <<< min n 64 = bits <<< n := by
  rcases Nat.le_total n 64 with hn | hn
  · rw [Nat.min_eq_left hn]
  · rw [Nat.min_eq_right hn, BitVec.shiftLeft_eq_zero (Nat.le_refl 64), BitVec.shiftLeft_eq_zero hn]

/-- Reading of a field where the mask comes from a shift that may lose its bit. -/
def getShifted (w : Word) (f : Field) : Nat :=
  ((w.bits >>> f.shift) &&& ((1#64 <<< f.width) - 1#64)).toNat

/-- Storing into a field where mask and value are shifted and may lose their high bits. -/
def setShifted (w : Word) (f : Field) (value : Nat) : Word :=
  let mask := ((1#64 <<< f.width) - 1#64) <<< f.shift
  ⟨(w.bits &&& ~~~mask) ||| ((BitVec.ofNat 64 value <<< f.shift) &&& mask)⟩

theorem getShifted_eq (w : Word) (f : Field) : w.getShifted f = w.get f := by
  rw [getShifted, ← lowMask_eq_sub, ← get]

theorem setShifted_eq (w : Word) (f : Field) (value : Nat) :
    w.setShifted f value = w.set f value := by
  rw [setShifted, ← lowMask_eq_sub, set, Field.mask, shiftLeft_min, shiftLeft_min]

/-!
# Two stores

Stores into fields that are apart can change places.
-/

theorem set_set (w : Word) (f : Field) (value later : Nat) :
    (w.set f value).set f later = w.set f later := by
  apply eq_of_getLsbD
  intro i _
  rw [getLsbD_set, getLsbD_set w f later]
  split
  · rfl
  · next hcovers => exact getLsbD_set_outside w value hcovers

theorem set_comm (w : Word) {f g : Field} (h : f.Apart g) (value other : Nat) :
    (w.set f value).set g other = (w.set g other).set f value := by
  apply eq_of_getLsbD
  intro i _
  rw [getLsbD_set (w.set f value), getLsbD_set (w.set g other), getLsbD_set, getLsbD_set]
  by_cases hf : f.Covers i
  · rw [if_pos hf, if_pos hf, if_neg (h i hf)]
  · rw [if_neg hf, if_neg hf]

theorem get_set_apart (w : Word) {f g : Field} (h : f.Apart g) (value : Nat) :
    (w.set f value).get g = w.get g := by
  apply Nat.eq_of_testBit_eq
  intro i
  rw [testBit_get, testBit_get]
  by_cases hi : i < g.width
  · have hg : g.Covers (g.shift + i) := ⟨by omega, by omega⟩
    rw [getLsbD_set_outside w value fun hf => h _ hf hg]
  · simp [hi]

/-!
# The parts of an instruction

Edits of which any two can change places can be made in any order.
-/

theorem negative_eq_getLsbD (w : Word) : w.negative = w.bits.getLsbD 35 := by
  show _ = w.bits.toNat.testBit 35
  rw [Nat.testBit_eq_decide_div_mod_eq]
  rfl

def edited (w : Word) (edits : List (Word → Word)) : Word :=
  edits.foldl (fun v edit => edit v) w

theorem edited_perm {edits order : List (Word → Word)}
    (hcomm : edits.Pairwise Function.Commute) (horder : order.Perm edits) (w : Word) :
    w.edited order = w.edited edits := by
  -- The fold asks for all pairs of members, also for an edit and itself.
  have hsymm : Std.Symm (Function.Commute : (Word → Word) → (Word → Word) → Prop) :=
    ⟨fun _ _ h => h.symm⟩
  have hall := hcomm.forall_of_forall fun edit _ => Function.Commute.refl edit
  exact (horder.symm.foldl_eq' (fun _ hfirst _ hsecond v => hall hsecond hfirst v) w).symm

def partEdits (a : Address) (tag decrement : Nat) : List (Word → Word) :=
  [fun v => v.withAddress a, fun v => v.withTag tag, fun v => v.withDecrement decrement]

theorem partEdits_comm (a : Address) (tag decrement : Nat) :
    (partEdits a tag decrement).Pairwise Function.Commute := by
  have htag : Field.address.Apart .tag := Field.apart_of_le (by decide)
  have hdecrement : Field.address.Apart .decrement := Field.apart_of_le (by decide)
  have hupper : Field.tag.Apart .decrement := Field.apart_of_le (by decide)
  simp only [partEdits, List.pairwise_cons, List.mem_cons, List.not_mem_nil, or_false,
    forall_eq_or_imp, forall_eq]
  exact ⟨⟨fun v => (v.set_comm htag _ _).symm, fun v => (v.set_comm hdecrement _ _).symm⟩,
    fun v => (v.set_comm hupper _ _).symm, by simp⟩

theorem partEdits_below {a : Address} {tag decrement : Nat} {edit : Word → Word}
    (h : edit ∈ partEdits a tag decrement) :
    ∃ f value, f.shift + f.width ≤ Field.signedPrefix.shift ∧ ∀ v, edit v = v.set f value := by
  simp only [partEdits, List.mem_cons, List.not_mem_nil, or_false] at h
  rcases h with rfl | rfl | rfl
  · exact ⟨.address, a.val, by decide, fun _ => rfl⟩
  · exact ⟨.tag, tag, by decide, fun _ => rfl⟩
  · exact ⟨.decrement, decrement, by decide, fun _ => rfl⟩

theorem partEdit_upper {a : Address} {tag decrement : Nat} {edit : Word → Word}
    (h : edit ∈ partEdits a tag decrement) (w : Word) :
    (edit w).get .signedPrefix = w.get .signedPrefix ∧ (edit w).negative = w.negative := by
  rcases partEdits_below h with ⟨f, value, hbelow, hedit⟩
  have hapart : f.Apart .signedPrefix := Field.apart_of_le hbelow
  rw [hedit]
  constructor
  · exact w.get_set_apart hapart value
  · have hsign : Field.signedPrefix.Covers 35 := by decide
    rw [negative_eq_getLsbD, negative_eq_getLsbD]
    exact w.getLsbD_set_outside value fun hf => hapart 35 hf hsign

/-- Reading and storing of fields, wherever they start and however wide they are.  What was stored
is read back as far as the field has bits in the word, of which there are none from bit 64 on; what
was read can be stored again without effect; the later of two stores counts; bits that the field does
not cover stay; stores into fields without a common bit can change places.  So address, tag and
decrement can be put into a word in any order, and none of them touches prefix or sign.  All of it
can be done with 64 bits and shifts that lose what leaves them. -/
theorem fields_are_lenses (w : Word) (f : Field) (value : Nat) :
    (w.set f value).get f = value % 2 ^ min f.width (64 - f.shift) ∧
    w.set f (w.get f) = w ∧
    (∀ later, (w.set f value).set f later = w.set f later) ∧
    (∀ i, ¬f.Covers i → (w.set f value).bits.getLsbD i = w.bits.getLsbD i) ∧
    (∀ g other, f.Apart g → (w.set f value).set g other = (w.set g other).set f value) ∧
    (∀ a tag decrement,
      (∀ order : List (Word → Word), order.Perm (partEdits a tag decrement) →
        w.edited order = ((w.withAddress a).withTag tag).withDecrement decrement) ∧
      ∀ edit ∈ partEdits a tag decrement,
        (edit w).get .signedPrefix = w.get .signedPrefix ∧ (edit w).negative = w.negative) ∧
    (w.getShifted f = w.get f ∧ w.setShifted f value = w.set f value) := by
  refine ⟨w.get_set f value, w.set_get f, w.set_set f value,
    fun _ houtside => w.getLsbD_set_outside value houtside,
    fun _ other hapart => w.set_comm hapart value other, fun a tag decrement => ⟨?_, ?_⟩,
    w.getShifted_eq f, w.setShifted_eq f value⟩
  · intro order horder
    exact edited_perm (partEdits_comm a tag decrement) horder w
  · intro edit hedit
    exact partEdit_upper hedit w

/-- A field of 70 bits from bit 60 on keeps the four low bits of a value and leaves bit 59 and the tag.
The parts of an instruction can be stored from the decrement down, which stays below the prefix. -/
theorem fields_are_lenses_past_word :
    let w : Word := ⟨BitVec.allOnes 64⟩
    let f : Field := ⟨60, 70⟩
    let a : Address := .ofNat 0o12345
    let edits := partEdits a 0o15 0o754321
    let decrementEdit : Word → Word := fun v => v.withDecrement 0o754321
    (w.set f 0o125).get f = 0o5 ∧
      (¬f.Covers 59 ∧ (w.set f 0o125).bits.getLsbD 59 = true) ∧
      (f.Apart .tag ∧ (w.set f 0o125).set .tag 2 = (w.set .tag 2).set f 0o125) ∧
      (edits.reverse.Perm edits ∧
        w.edited edits.reverse = ((w.withAddress a).withTag 0o15).withDecrement 0o754321) ∧
      (decrementEdit ∈ edits ∧ (decrementEdit w).get .signedPrefix = 0o7 ∧
        (decrementEdit w).negative = true) := by
  intro w f a edits decrementEdit
  have houtside : ¬f.Covers 59 := by decide
  have hapart : f.Apart .tag := fun i hf htag =>
    Field.apart_of_le (by decide : Field.tag.shift + Field.tag.width ≤ f.shift) i htag hf
  have horder : edits.reverse.Perm edits := List.reverse_perm edits
  have hmem : decrementEdit ∈ edits := by simp [edits, decrementEdit, partEdits]
  rcases fields_are_lenses w f 0o125 with ⟨hread, _, _, hkept, hcomm, hparts, _⟩
  rcases hparts a 0o15 0o754321 with ⟨hany, hupper⟩
  rcases hupper decrementEdit hmem with ⟨hkeptUpper, hkeptSign⟩
  exact ⟨hread.trans (by decide), ⟨houtside, (hkept 59 houtside).trans (by decide)⟩,
    ⟨hapart, hcomm .tag 2 hapart⟩, ⟨horder, hany edits.reverse horder⟩,
    hmem, hkeptUpper.trans (by decide), hkeptSign.trans (by decide)⟩

end Word

end Ibm704

import Ibm704.Proofs.Disassembly
import Ibm704.Proofs.OperandText
import Ibm704.Proofs.Reports

/-!
# Assembling what was read

A word is the template of the order that it is read as, and the operands that it
is read with, as a sum.  There is a template at the start of every range of words
with one sign and one prefix, so the rest of a word has room in its operands.
Where these are operands of the order, a card with the mnemonic and the operands
in decimal is assembled to the word again.
-/

namespace Ibm704
namespace Order

/-!
# The order of every word

Words with one sign and one prefix start with a template, so every word is read as an
order that leaves less than a prefix of it.
-/

theorem exists_prefix_template : ∀ bits < 8, ∃ order ∈ table, order.template.toNat = bits <<< 33 := by
  decide +kernel

theorem fixed_template : ∀ order ∈ table, order.template.address.val ≠ 0 →
    order.hasDecrement = false ∧
      ∃ sense ∈ table, sense? (order.template.withAddress .zero) = some sense ∧
        sense.template.address.val = 0 ∧ sense.hasDecrement = false ∧
        order.template = sense.template.or (.ofNat order.template.address.val) ∧
        order.template.toNat = sense.template.toNat + order.template.address.val := by
  decide +kernel

theorem exists_ofWord? {w : Word} (hfits : w.Fits) :
    ∃ order ∈ table, ofWord? w = some order ∧ order.template.toNat ≤ w.toNat ∧
      w.toNat < order.template.toNat + 1 <<< 33 ∧
      (order.template.address.val = 0 ∨ w.address = order.template.address) := by
  have hsize : w.toNat < 68719476736 := hfits
  rcases exists_prefix_template (w.toNat / 8589934592) (by omega) with ⟨first, hfirst, hstart⟩
  rw [Nat.shiftLeft_eq] at hstart
  have hbelow : first.template.toNat ≤ w.toNat := by omega
  rcases exists_nearest hfirst hbelow with ⟨found, hfound⟩
  rcases nearest?_spec hfound with ⟨hpreferred, hle, hlargest⟩
  have hmem := (preferred?_mem hpreferred).1
  have hatLeast := hlargest first hfirst hbelow
  show ∃ order ∈ table, ofWord? w = some order ∧ order.template.toNat ≤ w.toNat ∧
    w.toNat < order.template.toNat + 8589934592 ∧ _
  by_cases hplain : found.template.address.val = 0 ∨ w.address = found.template.address
  · exact ⟨found, hmem, ofWord?_of_nearest hfits hfound hplain, hle, by omega, hplain⟩
  · rcases not_or.mp hplain with ⟨hfixed, hother⟩
    rcases fixed_template found hmem hfixed with
      ⟨_, sense, hsense, hword, haddress, _, _, hnumber⟩
    -- The prefix template has no address, so taking one off the nearest template stays above it.
    have hfield := found.template.address_val
    exact ⟨sense, hsense, ofWord?_of_sense hfits hfound hfixed hother hword, by omega, by omega,
      .inl haddress⟩

/-!
# Words as sums

A word is the template of its order and its operands as a sum.  Where the operands are
operands of the order, putting them into its template is adding them.
-/

theorem assemble_of_fixed {order sense : Order} {tag : Nat} (htag : tag < 8)
    (htemplate : order.template = sense.template.or (.ofNat order.template.address.val)) :
    order.assemble 0 tag 0 = sense.assemble order.template.address.val tag 0 := by
  have hfixed : order.template.address.val < 32768 := by
    rw [Word.address_val]
    omega
  rw [assemble_eq_or (by decide) htag, assemble_eq_or hfixed htag, Word.or_zero, ← htemplate]

theorem assemble_eq_of_sum {order : Order} (horder : order ∈ table) {w : Word}
    {address tag decrement : Nat} (haddress : address < 32768) (htag : tag < 8)
    (hdecrement : decrement < 32768) (hnone : order.hasDecrement = false → decrement = 0)
    (hw : w.toNat = order.template.toNat + (address + tag <<< 15 + decrement <<< 18))
    (hplain : order.template.address.val = 0 ∨ w.address = order.template.address) :
    order.assemble address tag decrement = w := by
  apply Word.eq_of_toNat
  rw [hw]
  by_cases hzero : order.template.address.val = 0
  · exact assemble_toNat (operands_clear order horder hzero)
      (operands_lt haddress htag hdecrement hnone)
  · rcases fixed_template order horder hzero with
      ⟨hshort, sense, hsense, _, hclear, hsenseShort, htemplate, hnumber⟩
    have hnoDecrement := hnone hshort
    subst hnoDecrement
    have hnoAddress : address = 0 := by
      have hsame := congrArg Address.val (hplain.resolve_left hzero)
      rw [Word.address_val, Word.address_val, hw, Nat.shiftLeft_eq] at hsame
      omega
    subst hnoAddress
    have hfixed : order.template.address.val < 32768 := by
      rw [Word.address_val]
      omega
    rw [assemble_of_fixed htag htemplate,
      assemble_toNat (operands_clear sense hsense hclear)
        (operands_lt hfixed htag hdecrement fun _ => rfl), hnumber]
    omega

end Order

namespace Instruction

theorem exists_sum (w : Word) : ∃ order ∈ Order.table, ∃ address tag decrement,
    address < 32768 ∧ tag < 8 ∧ decrement < 32768 ∧
    ofWord w = ⟨w.stored, some order, .ofNat address, tag, decrement⟩ ∧
    w.stored.toNat = order.template.toNat + (address + tag <<< 15 + decrement <<< 18) ∧
    (order.template.address.val = 0 ∨ w.stored.address = order.template.address) := by
  have hfits := w.stored_fits
  rcases Order.exists_ofWord? hfits with ⟨order, horder, hread, hle, hroom, hplain⟩
  have hless : w.stored.toNat < order.template.toNat + 8589934592 := hroom
  let rest := w.stored.toNat - order.template.toNat
  have hsum : w.stored.toNat = order.template.toNat +
      (rest % 32768 + (rest / 32768 % 8) <<< 15 + (rest / 262144) <<< 18) := by
    rw [Nat.shiftLeft_eq, Nat.shiftLeft_eq]
    omega
  have hword : ofWord w = ofWord w.stored := by
    unfold ofWord
    rw [hfits.stored]
  refine ⟨order, horder, rest % 32768, rest / 32768 % 8, rest / 262144, by omega, by omega,
    by omega, ?_, hsum, hplain⟩
  rw [hword]
  exact ofWord_eq hfits hread (by omega) (by omega) (by omega) hsum

end Instruction

/-!
# Cards with an order on them

A card that has the mnemonic of an order and as many operands as it takes becomes its
instruction, without a report.
-/

namespace Order

def Spelled (order : Order) : Prop :=
  order.mnemonic.capitals = order.mnemonic ∧
  (order.mnemonic.isEmpty = false ∧
    StatementKind.ofMnemonic order.mnemonic = .instruction) ∧
  Text.ofChars order.mnemonic.chars = order.mnemonic ∧ order.mnemonic.chars ≠ [] ∧
    order.mnemonic.chars.all (fun c => decide (c.toNat < 0x80) && !isBlank c) = true

instance (order : Order) : Decidable order.Spelled :=
  inferInstanceAs (Decidable (_ ∧ _ ∧ _))

theorem mnemonic_spelled : ∀ order ∈ table, order.Spelled := by
  decide +kernel

theorem find?_mnemonic : ∀ order ∈ table,
    (table.find? fun other => other.mnemonic == order.mnemonic) = some order := by
  decide +kernel

theorem ofMnemonic?_mnemonic {order : Order} (h : order ∈ table) :
    ofMnemonic? order.mnemonic = some order := by
  unfold ofMnemonic?
  rw [(mnemonic_spelled order h).1]
  exact find?_mnemonic order h

end Order

namespace Card

/-- The card is no remark and has this operation and operand, whatever else stands on it. -/
structure Bears (card : Card) (mnemonic operand : Text) : Prop where
  remark : card.remark = false
  blank : card.blank = false
  operation : card.operation.capitals = mnemonic
  operand : (splitComment card.field).1 = operand

theorem Bears.classify {card : Card} {order : Order} {operand : Text} (horder : order ∈ Order.table)
    (h : card.Bears order.mnemonic operand) :
    Statement.classify card = (.instruction, order.mnemonic) := by
  rcases Order.mnemonic_spelled order horder with ⟨_, ⟨hsome, hkind⟩, _⟩
  unfold Statement.classify
  dsimp only
  rw [h.operation, h.remark, h.blank, hsome, hkind]
  rfl

theorem bears_tabbed (number : Int) {order : Order} (horder : order ∈ Order.table)
    (numbers : List Nat) :
    (ofLine number (tab :: (order.mnemonic ++ tab :: Expr.decimalOperands numbers))).Bears
      order.mnemonic (Expr.decimalOperands numbers) := by
  rcases Order.mnemonic_spelled order horder with ⟨hcapitals, _, hchars, hsome, hmnemonic⟩
  have hsolid : ∀ c ∈ order.mnemonic.chars, Solid c := by
    intro c hc
    have hc := List.all_eq_true.mp hmnemonic c hc
    simp only [Bool.and_eq_true, decide_eq_true_eq, Bool.not_eq_true'] at hc
    exact ⟨hc.1, hc.2⟩
  have hoperands := Expr.operandChars_solid numbers
  have hcard := @ofLine_tabbed [] order.mnemonic.chars (Expr.decimalOperands numbers) number
    (by simp) (by simp) hsolid (tabbed_ink (by simp) hsolid hsome) (by
      rw [Expr.decimalOperands_eq]
      exact fun byte hmem => (solid_byte hoperands hmem).2)
  rw [hchars] at hcard
  change ofLine number (tab :: (order.mnemonic ++ tab :: Expr.decimalOperands numbers)) = _ at hcard
  rw [hcard]
  constructor
  · rfl
  · rfl
  · exact hcapitals
  · show (splitComment (Expr.decimalOperands numbers)).1 = _
    rw [Expr.decimalOperands_eq, splitComment_ofChars hoperands]

end Card

namespace Expr

theorem parsed_ok (exprs : List Expr) : parsed (exprs.map .ok) = exprs := by
  induction exprs with
  | nil => rfl
  | cons e rest ih => exact congrArg (e :: ·) ih

theorem refused_ok (exprs : List Expr) : refused (exprs.map .ok) = [] := by
  induction exprs with
  | nil => rfl
  | cons e rest ih => exact ih

end Expr

namespace Statement

theorem parseExprs_of_items {st : Statement} {exprs : List Expr}
    (h : Expr.parseItems st.operand = exprs.map .ok) :
    st.parseExprs = { st with exprs := exprs } := by
  unfold parseExprs
  dsimp only
  rw [h, Expr.parsed_ok, Expr.refused_ok]
  unfold failAll
  rw [List.map_nil, List.map_nil, List.append_nil]

theorem parseField_instruction {st : Statement} {operand : Text} {exprs : List Expr}
    (hkind : st.kind = .instruction) (hoperand : (Card.splitComment st.card.field).1 = operand)
    (hitems : Expr.parseItems operand = exprs.map .ok) :
    st.parseField =
      { st with
        operand := operand, comment := (Card.splitComment st.card.field).2, exprs := exprs } := by
  have hfield : st.parseField =
      parseExprs
        { st with
          operand := (Card.splitComment st.card.field).1
          comment := (Card.splitComment st.card.field).2 } := by
    unfold parseField
    rw [hkind]
  rw [hfield, hoperand, parseExprs_of_items hitems]

theorem check_instruction {st : Statement} {order : Order} (hkind : st.kind = .instruction)
    (horder : Order.ofMnemonic? st.mnemonic = some order) (hleast : 1 ≤ st.exprs.length)
    (hmost : st.exprs.length ≤ if order.hasDecrement then 3 else 2) :
    st.check = { st with order := some order } := by
  have hfound : st.findOrder = { st with order := some order } := by
    unfold findOrder
    rw [horder]
  have harity : ({ st with order := some order } : Statement).checkArity 1 3 =
      { st with order := some order } := by
    unfold checkArity
    dsimp only
    rw [if_pos]
    split at hmost
    · exact ⟨hleast, hmost⟩
    · exact ⟨hleast, Nat.le_trans hmost (by decide)⟩
  have hdrop : ({ st with order := some order } : Statement).dropDecrement =
      { st with order := some order } := by
    unfold dropDecrement
    dsimp only
    rw [if_neg]
    intro hmany
    simp only [Option.map_some, Option.getD_some, Bool.and_eq_true, decide_eq_true_eq,
      Bool.not_eq_true'] at hmany
    rw [hmany.1.2, if_neg Bool.false_ne_true] at hmost
    omega
  have hcheck : st.check = (st.findOrder.checkArity 1 3).dropDecrement := by
    unfold check
    rw [hkind]
  rw [hcheck, hfound, harity, hdrop]

end Statement

namespace FirstPass

theorem incoming_of_bears {pass : FirstPass} {card : Card} {order : Order} {operand : Text}
    {exprs : List Expr} (hended : pass.ended = false) (horder : order ∈ Order.table)
    (hbears : card.Bears order.mnemonic operand) (hitems : Expr.parseItems operand = exprs.map .ok)
    (hleast : 1 ≤ exprs.length) (hmost : exprs.length ≤ if order.hasDecrement then 3 else 2) :
    (pass.incoming card).kind = .instruction ∧ (pass.incoming card).mnemonic = order.mnemonic ∧
      (pass.incoming card).blocked = false ∧ (pass.incoming card).exprs = exprs ∧
      (pass.incoming card).reports = [] := by
  have hclass := hbears.classify horder
  have hfresh : pass.statementOf card = Statement.ofCard card := by
    unfold statementOf
    rw [hended]
    rfl
  have hkind : (Statement.ofCard card).kind = .instruction := congrArg Prod.fst hclass
  have hmnemonic : (Statement.ofCard card).mnemonic = order.mnemonic := congrArg Prod.snd hclass
  have hprepared : (pass.statementOf card).prepared =
      { Statement.ofCard card with
        phase := .validated, operand := operand, comment := (Card.splitComment card.field).2,
        exprs := exprs, order := some order } := by
    have hparsed := @Statement.parseField_instruction
      { Statement.ofCard card with phase := .parsed } operand exprs hkind hbears.operand hitems
    unfold Statement.prepared
    rw [hfresh, hparsed]
    exact Statement.check_instruction hkind
      (by rw [← Order.ofMnemonic?_mnemonic horder, ← hmnemonic]) hleast hmost
  unfold incoming
  rw [hprepared]
  exact ⟨hkind, hmnemonic, rfl, rfl, rfl⟩

theorem exists_entry (pass : FirstPass) (before : List Card) (card : Card) (after : List Card) :
    ∃ earlier entry later, pass.history (before ++ card :: after) = earlier ++ entry :: later ∧
      earlier.map Entry.card = before ∧ entry.card = card := by
  have hcards := history_cards pass (before ++ card :: after)
  rcases List.map_eq_append_iff.mp hcards with ⟨earlier, rest, hhistory, hearlier, hrest⟩
  rcases List.map_eq_cons_iff.mp hrest with ⟨entry, later, rfl, hentry, _⟩
  exact ⟨earlier, entry, later, hhistory, hearlier, hentry⟩

end FirstPass

/-!
# Words of cards with numbers

Numbers need no symbols, so the word is the same wherever the card stands before the
end card.
-/

theorem SymbolTable.number_int (table : SymbolTable) (here : Address) {n : Nat}
    (h : n < 9223372036854775808) : table.number here (.int (Int64.ofNat n)) = n :=
  Int64.toInt_ofNat_of_lt h

theorem Assembler.Follows.of_numbers {asm : Assembler} {entry : FirstPass.Entry} {st : Statement}
    {order : Order} {numbers : List Nat} (h : asm.Follows entry st)
    (hended : entry.before.ended = false) (horder : order ∈ Order.table)
    (hbears : entry.card.Bears order.mnemonic (Expr.decimalOperands numbers))
    (hleast : 1 ≤ numbers.length) (hmost : numbers.length ≤ if order.hasDecrement then 3 else 2)
    (hsmall : ∀ n ∈ numbers, n < 9223372036854775808) :
    st.kind = .instruction ∧ st.reports = [] ∧
      st.words = some [SecondPass.orderWord order.template (numbers.map Nat.cast)] := by
  have hsome : numbers ≠ [] := List.ne_nil_of_length_pos hleast
  have hitems : Expr.parseItems (Expr.decimalOperands numbers) =
      (numbers.map fun n => Expr.int (Int64.ofNat n)).map .ok := by
    rw [Expr.parseItems_decimalOperands hsome, List.map_map]
    rfl
  rcases FirstPass.incoming_of_bears hended horder hbears hitems
    (by rwa [List.length_map]) (by rwa [List.length_map]) with
    ⟨hkind, hmnemonic, hfree, hexprs, hreports⟩
  rw [← h.cardPart Statement.kind (fun _ => rfl) fun _ => rfl] at hkind
  rw [← h.cardPart Statement.mnemonic (fun _ => rfl) fun _ => rfl] at hmnemonic
  rw [← h.cardPart Statement.blocked (fun _ => rfl) fun _ => rfl] at hfree
  rw [← h.cardPart Statement.exprs (fun _ => rfl) fun _ => rfl] at hexprs
  refine ⟨hkind, ?_, ?_⟩
  · have hnone : st.failures (st.exprs.map (asm.symbols.eval st.base)) = [] := by
      rw [hexprs, List.map_map]
      apply List.filterMap_eq_nil_iff.mpr
      intro outcome hmem
      rcases List.mem_map.mp hmem with ⟨n, _, rfl⟩
      rfl
    rw [h.reports hfree, hreports, hkind]
    exact hnone
  · rcases h.agreesOn.instruction hkind hfree with ⟨found, hfound, _, _, hwords⟩
    rw [hmnemonic, Order.ofMnemonic?_mnemonic horder] at hfound
    cases hfound
    rw [hwords, ← orderWord_eq, hexprs, List.map_map]
    congr 3
    apply List.map_congr_left
    intro n hmem
    exact asm.symbols.number_int st.base (hsmall n hmem)

theorem assembleCards_of_numbers (options : Options) {before after : List Card} {card : Card}
    {order : Order} {numbers : List Nat} (horder : order ∈ Order.table)
    (hbears : card.Bears order.mnemonic (Expr.decimalOperands numbers))
    (hopen : ∀ earlier ∈ before, (Statement.classify earlier).1 ≠ .finish)
    (hleast : 1 ≤ numbers.length) (hmost : numbers.length ≤ if order.hasDecrement then 3 else 2)
    (hsmall : ∀ n ∈ numbers, n < 9223372036854775808) :
    ∃ asm st, assembleCards options (before ++ card :: after) = .ok asm ∧
      asm.statements[before.length]? = some st ∧ st.card = card ∧ st.kind = .instruction ∧
      st.reports = [] ∧
      st.words = some [SecondPass.orderWord order.template (numbers.map Nat.cast)] := by
  rcases FirstPass.exists_entry options.start before card after with
    ⟨earlier, entry, later, hhistory, hearlier, hcard⟩
  have hended : entry.before.ended = false := by
    apply Bool.eq_false_iff.mpr
    intro hended
    rcases (FirstPass.history_ended hhistory).mp hended with hstart | ⟨other, hother, hfinish⟩
    · cases hstart
    · exact hopen other.card (hearlier ▸ List.mem_map_of_mem hother) hfinish
  have hentry : (options.history (before ++ card :: after))[before.length]? = some entry := by
    rw [Options.history, hhistory, ← hearlier, List.length_map,
      List.getElem?_append_right (Nat.le_refl _), Nat.sub_self]
    rfl
  rcases options.entered_finish (before ++ card :: after) with ⟨asm, hfinish, hfinished⟩
  rcases exists_right_of_forall₂ hfinished.follows hentry with ⟨st, hst, hfollows⟩
  rw [← hcard] at hbears
  rcases hfollows.of_numbers hended horder hbears hleast hmost hsmall with
    ⟨hkind, hreports, hwords⟩
  exact ⟨asm, st, assembleCards_of_finish hfinish, hst, hfollows.card.trans hcard, hkind, hreports,
    hwords⟩

namespace Order

def cardNumbers (order : Order) (address tag decrement : Nat) : List Nat :=
  address :: tag :: if order.hasDecrement then [decrement] else []

theorem cardNumbers_length (order : Order) (address tag decrement : Nat) :
    (order.cardNumbers address tag decrement).length = if order.hasDecrement then 3 else 2 := by
  unfold cardNumbers
  cases order.hasDecrement <;> rfl

theorem cardNumbers_lt {order : Order} {address tag decrement : Nat} (haddress : address < 32768)
    (htag : tag < 8) (hdecrement : decrement < 32768) :
    ∀ n ∈ order.cardNumbers address tag decrement, n < 9223372036854775808 := by
  unfold cardNumbers
  cases order.hasDecrement with
  | true =>
      intro n hmem
      simp at hmem
      omega
  | false =>
      intro n hmem
      simp at hmem
      omega

theorem orderWord_cardNumbers {order : Order} {address tag decrement : Nat}
    (haddress : address < 32768) (htag : tag < 8) (hdecrement : decrement < 32768)
    (hnone : order.hasDecrement = false → decrement = 0) :
    SecondPass.orderWord order.template
        ((order.cardNumbers address tag decrement).map Nat.cast) =
      order.assemble address tag decrement := by
  rw [← orderWord_eq_assemble haddress htag hdecrement]
  unfold cardNumbers
  cases hhas : order.hasDecrement with
  | true => rfl
  | false =>
      rw [hnone hhas]
      rfl

end Order

def Instruction.cardOperands (inst : Instruction) (order : Order) : Text :=
  Expr.decimalOperands (order.cardNumbers inst.address.val inst.tag inst.decrement)

/-- Reading a word as an instruction loses nothing of it.  The word is the template of its order
with the operands added to it; and where the order can have the operands, any card with them in
decimal leaves the word again, wherever it stands before the end card of a program. -/
theorem words_reassemble (w : Word) :
    ∃ order, (Instruction.ofWord w).order = some order ∧
      Order.ofMnemonic? order.mnemonic = some order ∧
      w.toNat % 68719476736 = order.template.toNat + (Instruction.ofWord w).address.val +
        (Instruction.ofWord w).tag * 32768 + (Instruction.ofWord w).decrement * 262144 ∧
      ((Instruction.ofWord w).decrement = 0 ∨ order.hasDecrement = true →
        (∀ number, (Card.ofLine number (Card.tab :: (order.mnemonic ++ Card.tab ::
          (Instruction.ofWord w).cardOperands order))).Bears order.mnemonic
            ((Instruction.ofWord w).cardOperands order)) ∧
        ∀ (options : Options) (before after : List Card) (card : Card),
          card.Bears order.mnemonic ((Instruction.ofWord w).cardOperands order) →
          (∀ earlier ∈ before, (Statement.classify earlier).1 ≠ .finish) →
          ∃ asm st, assembleCards options (before ++ card :: after) = .ok asm ∧
            asm.statements[before.length]? = some st ∧ st.card = card ∧
            st.kind = .instruction ∧ st.reports = [] ∧
            st.words = some [.ofNat (w.toNat % 68719476736)]) := by
  rcases Instruction.exists_sum w with
    ⟨order, horder, address, tag, decrement, haddress, htag, hdecrement, hread, hsum, hplain⟩
  have hfield : (Address.ofNat address).val = address := Nat.mod_eq_of_lt (by omega)
  have hnumber : w.stored.toNat = w.toNat % 68719476736 :=
    Word.toNat_ofNat (Nat.mod_lt _ (by decide))
  have hcard : (Instruction.ofWord w).cardOperands order =
      Expr.decimalOperands (order.cardNumbers address tag decrement) := by
    rw [hread, Instruction.cardOperands, hfield]
  refine ⟨order, ?_⟩
  rw [hcard, hread]
  refine ⟨rfl, Order.ofMnemonic?_mnemonic horder, ?_, ?_⟩
  · show _ = order.template.toNat + (Address.ofNat address).val + tag * 32768 + decrement * 262144
    rw [← hnumber, hsum, hfield, Nat.shiftLeft_eq, Nat.shiftLeft_eq]
    omega
  · intro hfree
    have hnone : order.hasDecrement = false → decrement = 0 := by
      intro hshort
      exact hfree.resolve_right (by rw [hshort]; exact Bool.false_ne_true)
    have hlength := order.cardNumbers_length address tag decrement
    refine ⟨fun number => Card.bears_tabbed number horder _, ?_⟩
    intro options before after card hbears hopen
    rcases assembleCards_of_numbers options horder hbears hopen (Nat.le_add_left 1 _)
      (Nat.le_of_eq hlength) (Order.cardNumbers_lt haddress htag hdecrement) with
      ⟨asm, st, hassembled, hst, hof, hkind, hreports, hwords⟩
    refine ⟨asm, st, hassembled, hst, hof, hkind, hreports, ?_⟩
    rw [hwords, Order.orderWord_cardNumbers haddress htag hdecrement hnone,
      Order.assemble_eq_of_sum horder haddress htag hdecrement hnone hsum hplain]
    rfl

/-- The word of all ones, from the card of its order with the largest operands. -/
theorem words_reassemble_ones :
    ∃ asm st, assembleCards ⟨.zero, .absolute⟩
        [Card.ofLine 1 (.ofString "A\tCLA\tB"),
          Card.ofLine 2 (.ofString "\ttxl\t32767,7,32767 last")] = .ok asm ∧
      asm.statements[1]? = some st ∧ st.reports = [] ∧
      st.words = some [.ofNat 0o777777777777] := by
  rcases words_reassemble (.ofNat 0o777777777777) with ⟨order, horder, _, _, hcards⟩
  have hread : (Instruction.ofWord (.ofNat 0o777777777777)).order =
      some (.indexTransfer "TXL" .minus 3 "Transfer on index low or equal") := by
    decide +kernel
  cases horder.symm.trans hread
  rcases (hcards (.inr rfl)).2 ⟨.zero, .absolute⟩ [Card.ofLine 1 (.ofString "A\tCLA\tB")] []
    (Card.ofLine 2 (.ofString "\ttxl\t32767,7,32767 last"))
    ⟨rfl, rfl, by decide +kernel, by decide +kernel⟩ (by decide +kernel) with
    ⟨asm, st, hassembled, hst, _, _, hreports, hwords⟩
  exact ⟨asm, st, hassembled, hst, hreports, hwords⟩

end Ibm704

import Ibm704.Proofs.Assembly

/-!
# One table for both passes

Operands are evaluated at different times, and with an anchor a lookup can define
a symbol.  Still every operand that counts has the value that the final table
gives it: a definition stands once it is made, a first pass operand found all its
symbols, and during the second pass nothing but lookups happens.  Evaluating any
of these operands once more, after the last card, defines nothing.
-/

namespace Ibm704

/-!
# Words of fields

Address, tag and decrement do not overlap.
-/

theorem lowBits_lt {bits : Nat} (h : bits ≤ 64) (n : Int) : lowBits bits n < 1 <<< bits := by
  have hpositive : 0 < 1 <<< bits := by
    rw [Nat.shiftLeft_eq]
    exact Nat.mul_pos (by decide) (Nat.two_pow_pos bits)
  have hrest := Int.emod_lt_of_pos n (Int.ofNat_lt.mpr hpositive)
  unfold lowBits
  rw [Nat.min_eq_left h]
  omega

namespace Word

theorem ofNat_or (m n : Nat) : ofNat (m ||| n) = (ofNat m).or (ofNat n) := by
  unfold ofNat or
  rw [BitVec.ofNat_or]

theorem or_assoc (u v w : Word) : (u.or v).or w = u.or (v.or w) := by
  unfold or
  rw [BitVec.or_assoc]

theorem or_zero (w : Word) : w.or (ofNat 0) = w := by
  unfold or ofNat
  simp

end Word

/-- The template with an address in it, and with a tag and a decrement if there are any. -/
def instructionWord (template : Word) : List Int → Word
  | [] => template
  | [address] => template.or (.ofNat (lowBits 15 address))
  | [address, tag] =>
      (template.or (.ofNat (lowBits 15 address))).or (.ofNat (lowBits 3 tag <<< 15))
  | address :: tag :: decrement :: _ =>
      ((template.or (.ofNat (lowBits 15 address))).or (.ofNat (lowBits 3 tag <<< 15))).or
        (.ofNat (lowBits 15 decrement <<< 18))

theorem fields_eq_or {address tag decrement : Nat} (haddress : address < 32768) (htag : tag < 8) :
    Word.ofNat (address + (tag <<< 15) + (decrement <<< 18)) =
      ((Word.ofNat address).or (.ofNat (tag <<< 15))).or (.ofNat (decrement <<< 18)) := by
  have hlow : tag <<< 15 + address = tag <<< 15 ||| address :=
    Nat.shiftLeft_add_eq_or_of_lt haddress tag
  have hbound : tag <<< 15 + address < 262144 := by
    rw [Nat.shiftLeft_eq]
    omega
  have hhigh : decrement <<< 18 + (tag <<< 15 + address) =
      decrement <<< 18 ||| (tag <<< 15 + address) :=
    Nat.shiftLeft_add_eq_or_of_lt hbound decrement
  have hsum : address + tag <<< 15 + decrement <<< 18 =
      (address ||| tag <<< 15) ||| decrement <<< 18 := by
    rw [Nat.or_comm address, ← hlow, Nat.or_comm _ (decrement <<< 18), ← hhigh]
    omega
  rw [hsum, Word.ofNat_or, Word.ofNat_or]

theorem orderWord_eq (template : Word) (numbers : List Int) :
    SecondPass.orderWord template numbers = instructionWord template numbers := by
  have haddress : lowBits 15 (numbers.getD 0 0) < 32768 := lowBits_lt (by decide) _
  have htag : lowBits 3 (numbers.getD 1 0) < 8 := lowBits_lt (by decide) _
  have hzero : ∀ bits, lowBits bits 0 = 0 := by
    intro bits
    simp [lowBits]
  unfold SecondPass.orderWord
  rw [fields_eq_or haddress htag]
  rcases numbers with _ | ⟨address, _ | ⟨tag, _ | ⟨decrement, rest⟩⟩⟩
  · simp [instructionWord, hzero, Word.or_zero]
  · simp [instructionWord, hzero, Word.or_zero]
  · simp [instructionWord, hzero, Word.or_zero, Word.or_assoc]
  · simp [instructionWord, Word.or_assoc]

/-!
# Operands of the first pass

Operands that decide about space or symbols were evaluated in the state before their
card, and what they found stands after it.
-/

namespace FirstPass

theorem Placed.operands {pass : FirstPass} {st : Statement} {result : FirstPass × Statement}
    (h : Placed pass st result) (hfree : st.blocked = false)
    (hkind : st.kind = .equate ∨ st.kind = .synonym ∨ st.kind = .blockStart ∨
      st.kind = .blockEnd ∨ st.kind = .repetition) :
    (pass.scope.evalAll pass.location st.exprs).2.Extends result.1.scope := by
  have hsingle : ∀ {e}, st.exprs = [e] →
      (pass.scope.evalAll pass.location st.exprs).2 = (pass.resolved st e).scope := by
    intro e hexprs
    rw [hexprs]
    exact (Statement.resolve_scope st _ pass.location pass.scope e).symm
  cases h with
  | idle hidle =>
      rw [hfree] at hidle
      rcases hidle with h | h | h | h
      · cases h
      all_goals simp [h] at hkind
  | block _ hexprs =>
      rw [hsingle hexprs]
      exact reserve_extends { pass with scope := _ } _ _ _
  | equated _ hexprs =>
      rw [hsingle hexprs]
      exact Scope.define_extends _ _ _
  | unequated _ hexprs =>
      rw [hsingle hexprs]
      exact Scope.Extends.refl _
  | repetition _ hexprs _ hwords htimes =>
      subst hwords htimes
      rw [hexprs]
      simp only [Scope.evalAll, resolved, reserve, Statement.resolve_scope]
      exact Scope.Extends.refl _
  | words _ hother => rcases hother with ⟨h, _⟩ | ⟨h | h | h, _⟩ <;> simp [h] at hkind
  | origin _ _ hother => simp [hother] at hkind
  | anchor _ _ hother => simp [hother] at hkind
  | finish _ hother => simp [hother] at hkind
  | format _ hother => rcases hother with ⟨h, _⟩ | ⟨h, _⟩ <;> simp [h] at hkind

end FirstPass

/-!
# The final table

Operands that wait are evaluated in a scope that only gains definitions, so the final
table gives the same values.
-/

def SymbolTable.number (table : SymbolTable) (here : Address) (e : Expr) : Int :=
  Statement.outcomeNumber (table.eval here e)

namespace Assembler

/-- The words of a statement are those of the final table, and its operands keep their values. -/
structure AgreesOn (asm : Assembler) (entry : FirstPass.Entry) (st : Statement) : Prop where
  card : st.card = entry.card
  instruction : st.kind = .instruction → st.blocked = false →
    ∃ order, Order.ofMnemonic? st.mnemonic = some order ∧
      1 ≤ st.exprs.length ∧ st.exprs.length ≤ 3 ∧
      st.words = some [instructionWord order.template (st.exprs.map (asm.symbols.number st.base))]
  finish : st.kind = .finish →
    ∃ order e, Order.ofMnemonic? (.ofString "TRA") = some order ∧ st.exprs = [e] ∧
      st.words = some [order.template.or (.ofNat (lowBits 15 (asm.symbols.number st.base e)))]
  late : st.kind = .instruction ∧ st.blocked = false ∨ st.kind = .finish →
    ∀ e ∈ st.exprs, asm.first.scope.Settles st.base e (asm.symbols.eval st.base e)
  early : st.blocked = false →
    st.kind = .equate ∨ st.kind = .synonym ∨ st.kind = .blockStart ∨ st.kind = .blockEnd ∨
      st.kind = .repetition →
    ∀ e value, (e, Except.ok value) ∈
        st.exprs.zip (entry.before.scope.evalAll entry.before.location st.exprs).1 →
      asm.first.scope.Settles st.base e (.ok value)

theorem operands_settle {asm : Assembler} {before after : SecondPass} {st : Statement}
    (hscope : after.scope = (before.scope.evalAll st.base st.exprs).2)
    (hleads : after.scope.LeadsTo asm.first.scope) :
    (before.scope.evalAll st.base st.exprs).1.map Statement.outcomeNumber =
        st.exprs.map (asm.symbols.number st.base) ∧
      ∀ e ∈ st.exprs, asm.first.scope.Settles st.base e (asm.symbols.eval st.base e) := by
  rw [hscope] at hleads
  rcases Scope.evalAll_settles hleads with ⟨houtcomes, hsettles⟩
  refine ⟨?_, hsettles⟩
  rw [houtcomes, List.map_map]
  rfl

theorem Follows.agreesOn {asm : Assembler} {entry : FirstPass.Entry} {st : Statement}
    (h : asm.Follows entry st) : asm.AgreesOn entry st := by
  rcases h.assembled with ⟨before, after, hassembled, hleads⟩
  have hgiven : SecondPass.Given before st st.emitted after.scope := hassembled.given
  have hwords : st.words = some st.emitted := hassembled.words
  have hfinish : st.kind = .finish → st.blocked = false :=
    fun hkind => h.checked.unblocked (by simp [hkind])
  constructor
  · exact h.card
  · intro hkind hfree
    have hleast := h.checked.least
    have hmost := h.checked.most
    rw [hkind] at hleast hmost
    rcases hgiven.of_instruction hkind hfree with ⟨order, hmnemonic, hemitted, hscope⟩
    refine ⟨order, hmnemonic, hleast, hmost, ?_⟩
    rw [hwords, hemitted, orderWord_eq, (operands_settle hscope hleads).1]
  · intro hkind
    rcases h.checked.single (by rw [hkind]; rfl) with ⟨e, hexprs⟩
    rcases SecondPass.transferTemplate_eq with ⟨order, horder, htemplate⟩
    rcases hgiven.of_finish hkind (hfinish hkind) with ⟨hemitted, hscope⟩
    refine ⟨order, e, horder, hexprs, ?_⟩
    rw [hwords, hemitted, orderWord_eq, (operands_settle hscope hleads).1, htemplate, hexprs]
    rfl
  · rintro (⟨hkind, hfree⟩ | hkind)
    · rcases hgiven.of_instruction hkind hfree with ⟨_, _, _, hscope⟩
      exact (operands_settle hscope hleads).2
    · rcases hgiven.of_finish hkind (hfinish hkind) with ⟨_, hscope⟩
      exact (operands_settle hscope hleads).2
  · intro hfree hkind e value hmem
    have hbase : st.base = entry.before.location := by
      rw [h.base, if_neg]
      rcases hkind with hkind | hkind | hkind | hkind | hkind <;> simp [hkind]
    rw [h.cardPart Statement.blocked (fun _ => rfl) fun _ => rfl] at hfree
    rw [h.cardPart Statement.kind (fun _ => rfl) fun _ => rfl] at hkind
    rw [h.cardPart Statement.exprs (fun _ => rfl) fun _ => rfl] at hmem
    have hoperands := FirstPass.Placed.operands h.placed hfree hkind
    rw [hbase]
    exact Scope.evalAll_settles_of_ok (hoperands.trans h.grows) e value hmem

end Assembler

/-- A program can be assembled, and its words and first pass values are those of the symbols as
they are defined when the assembly is done. -/
theorem words_by_final_symbols (options : Options) (source : Text) (lines : List Text)
    (h : Source.lines? source = some lines) :
    ∃ asm, assembleSource options source = .ok asm ∧
      List.Forall₂ asm.AgreesOn (options.history (Card.ofLines 1 lines)) asm.statements := by
  rcases assembleSource_finished options h with ⟨asm, hsource, hfinished⟩
  exact ⟨asm, hsource, List.Forall₂.imp (fun _ _ => Assembler.Follows.agreesOn) hfinished.follows⟩

/-- The anchor defines symbols in both passes here, a block and a repetition wait for one of them,
and one operand divides by zero. -/
theorem words_by_final_symbols_anchored :
    let options : Options := ⟨.zero, .absolute⟩
    let source : Text :=
      .ofString "A\tCLA\tX+B,Y/0\n\tDEF\t3\nB\tEQU\tA+U\nC\tBSS\t2*B\n\tREP\t1,V\n\tEND\tA\n"
    let lines : List Text := [.ofString "A\tCLA\tX+B,Y/0", .ofString "\tDEF\t3",
      .ofString "B\tEQU\tA+U", .ofString "C\tBSS\t2*B", .ofString "\tREP\t1,V", .ofString "\tEND\tA"]
    Source.lines? source = some lines ∧
      ∃ asm, assembleSource options source = .ok asm ∧
        List.Forall₂ asm.AgreesOn (options.history (Card.ofLines 1 lines)) asm.statements ∧
        asm.symbols.entries =
          [(.ofString "A", .zero), (.ofString "U", .ofNat 3), (.ofString "B", .ofNat 3),
            (.ofString "C", .ofNat 1), (.ofString "V", .ofNat 4), (.ofString "X", .ofNat 5),
            (.ofString "Y", .ofNat 6)] ∧
        asm.statements.map Statement.emitted =
          [[.ofNat 0o050000000010], [], [], [], [.zero, .zero, .zero, .zero],
            [.ofNat 0o002000000000]] := by
  intro options source lines
  have hlines : Source.lines? source = some lines := by decide
  rcases words_by_final_symbols options source lines hlines with ⟨asm, hsource, hagrees⟩
  have hvalues : (assembleSource options source).toOption.map
      (fun asm => (asm.symbols.entries, asm.statements.map Statement.emitted)) =
        some ([(.ofString "A", .zero), (.ofString "U", .ofNat 3), (.ofString "B", .ofNat 3),
            (.ofString "C", .ofNat 1), (.ofString "V", .ofNat 4), (.ofString "X", .ofNat 5),
            (.ofString "Y", .ofNat 6)],
          [[.ofNat 0o050000000010], [], [], [], [.zero, .zero, .zero, .zero],
            [.ofNat 0o002000000000]]) := by
    decide +kernel
  rw [hsource] at hvalues
  rcases Prod.mk.inj (Option.some.inj hvalues) with ⟨hsymbols, hwords⟩
  exact ⟨hlines, asm, hsource, hagrees, hsymbols, hwords⟩

end Ibm704

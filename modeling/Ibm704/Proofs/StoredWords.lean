import Ibm704.Proofs.Assembly
import Ibm704.Proofs.FinalSymbols
import Ibm704.Proofs.SignedWords

/-!
# Words that storage keeps

Words travel in 64 bits, and storage keeps 36 of them.  Every word that a
statement leaves has no other bits, so nothing of it is lost when it is stored:
templates, fields, literals and characters all fit, and a repetition copies words
that fit.
-/

namespace Ibm704

/-!
# Sizes of words

A word fits if it has no bits above its sign, and storing changes nothing then.
-/

theorem foldl_digits_lt {α : Type} {value : α → Nat} {base bits : Nat} (hbase : base = 1 <<< bits)
    {digits : List α} (h : ∀ digit ∈ digits, value digit < base) (start : Nat) :
    digits.foldl (fun n digit => n * base + value digit) start <
      (start + 1) <<< (bits * digits.length) := by
  induction digits generalizing start with
  | nil => simp
  | cons digit rest ih =>
      have hdigit := h digit List.mem_cons_self
      have hrest := ih (fun other hmem => h other (List.mem_cons_of_mem digit hmem))
        (start * base + value digit)
      have hnext : start * base + value digit + 1 ≤ (start + 1) <<< bits := by
        rw [Nat.shiftLeft_eq, ← Nat.one_shiftLeft, ← hbase, Nat.succ_mul]
        omega
      have hstep : (start * base + value digit + 1) <<< (bits * rest.length) ≤
          ((start + 1) <<< bits) <<< (bits * rest.length) := by
        rw [Nat.shiftLeft_eq, Nat.shiftLeft_eq]
        exact Nat.mul_le_mul_right _ hnext
      rw [List.length_cons, Nat.mul_add, Nat.mul_one, Nat.add_comm (bits * rest.length) bits,
        Nat.shiftLeft_add]
      exact Nat.lt_of_lt_of_le hrest hstep

namespace Word

def Fits (w : Word) : Prop :=
  w.toNat < 2 * signWeight

instance (w : Word) : Decidable w.Fits :=
  inferInstanceAs (Decidable (w.toNat < 2 * signWeight))

theorem ofNat_fits {n : Nat} (h : n < 2 * signWeight) : (ofNat n).Fits := by
  rw [Fits, toNat_ofNat h]
  exact h

theorem stored_fits (w : Word) : w.stored.Fits :=
  ofNat_fits (Nat.mod_lt _ (by decide))

theorem Fits.stored {w : Word} (h : w.Fits) : w.stored = w := by
  rw [Word.stored, Nat.mod_eq_of_lt h]
  simp [ofNat, toNat]

theorem make_fits (negative : Bool) (magnitude : Nat) : (make negative magnitude).Fits := by
  apply ofNat_fits
  have hrest : magnitude % signWeight < signWeight := Nat.mod_lt _ (by decide)
  cases negative <;> simp <;> omega

theorem Fits.or {w v : Word} (hw : w.Fits) (hv : v.Fits) : (w.or v).Fits := by
  have h := Nat.or_lt_two_pow (n := 36) hw hv
  rw [Fits, toNat, Word.or, BitVec.toNat_or]
  exact h

end Word

namespace CharacterCode

theorem encode?_lt {c : Char} {code : Nat} (h : encode? c = some code) : code < 64 := by
  have hcodes : ∀ entry ∈ codes, entry.2 < 64 := by decide
  rcases List.lookup_eq_some_iff.mp h with ⟨before, after, hsplit, _⟩
  exact hcodes (fold c, code) (by rw [hsplit]; simp)

def packedCodes (chars : List Char) : List Nat :=
  (sixOf chars).map fun c => (encode? c).getD blank

theorem packedCodes_length (chars : List Char) : (packedCodes chars).length = 6 := by
  simp [packedCodes, sixOf, perWord]

theorem packedCodes_lt (chars : List Char) : ∀ code ∈ packedCodes chars, code < 64 := by
  intro code hmem
  rcases List.mem_map.mp hmem with ⟨c, _, rfl⟩
  cases hcode : encode? c with
  | none => decide
  | some code => exact encode?_lt hcode

theorem pack_fits (chars : List Char) : (pack chars).Fits := by
  have hbound := foldl_digits_lt (show 64 = 1 <<< 6 from rfl) (packedCodes_lt chars) 0
  rw [packedCodes_length] at hbound
  exact Word.ofNat_fits hbound

end CharacterCode

namespace Literal

theorem readOctal_eq_ok_iff {text : Text} {w : Word} :
    readOctal text = .ok w ↔
      ∃ negative digits, splitSign text.chars = .ok (negative, digits) ∧ checkOctal digits = .ok () ∧
        w = if negative then (pushOctal digits).stored.or (.make true 0)
          else (pushOctal digits).stored := by
  constructor
  · intro h
    unfold readOctal at h
    cases hsplit : splitSign text.chars with
    | error error =>
        rw [hsplit] at h
        cases h
    | ok signed =>
        rw [hsplit] at h
        cases hcheck : checkOctal signed.2 with
        | error error =>
            simp only [bind, Except.bind, hcheck] at h
            cases h
        | ok _ =>
            simp only [bind, Except.bind, hcheck, pure, Except.pure, Except.ok.injEq] at h
            exact ⟨signed.1, signed.2, rfl, hcheck, h.symm⟩
  · rintro ⟨negative, digits, hsplit, hcheck, rfl⟩
    simp only [readOctal, hsplit, hcheck, bind, Except.bind, pure, Except.pure]

theorem readOctal_fits {text : Text} {w : Word} (h : readOctal text = .ok w) : w.Fits := by
  rcases readOctal_eq_ok_iff.mp h with ⟨negative, digits, _, _, rfl⟩
  split
  · exact (Word.stored_fits _).or (Word.make_fits _ _)
  · exact Word.stored_fits _

theorem readDecimal_fits {text : Text} {w : Word} (h : readDecimal text = .ok w) : w.Fits := by
  unfold readDecimal at h
  simp only [bind, Except.bind, pure, Except.pure] at h
  split at h
  · cases h
  split at h
  · cases h
  split at h
  · cases h
  split at h
  · cases h
    exact Word.make_fits _ _
  · split at h
    · cases h
      exact Word.make_fits _ _
    · cases h

end Literal

namespace Order

theorem table_fits : ∀ order ∈ table, order.template.Fits := by
  decide +kernel

theorem template_fits {mnemonic : Text} {order : Order} (h : ofMnemonic? mnemonic = some order) :
    order.template.Fits :=
  table_fits order (List.mem_of_find?_eq_some h)

end Order

/-!
# Data of statements

Characters, octal and decimal literals all give words that fit.
-/

namespace Statement

theorem literalWord_fits {read : Text → Except Literal.Error Word}
    (hread : ∀ {text w}, read text = .ok w → w.Fits) (literal : Text) :
    (literalWord read literal).Fits := by
  unfold literalWord
  split
  · rename_i w hw
    exact hread hw
  · decide

theorem parseCharacters_fits (st : Statement) : ∀ w ∈ st.parseCharacters.data, w.Fits := by
  have htake : ∀ (st : Statement) count field, ∀ w ∈ (st.takeCharacters count field).data,
      w.Fits := by
    intro st count field w hmem
    rcases List.mem_map.mp hmem with ⟨group, _, rfl⟩
    exact CharacterCode.pack_fits _
  unfold parseCharacters
  split
  · exact htake _ _ _
  · split
    · exact htake _ _ _
    · exact htake _ _ _

theorem parseField_fits {st : Statement} (hdata : st.data = []) :
    ∀ w ∈ st.parseField.data, w.Fits := by
  have hliterals : ∀ (st : Statement) {read : Text → Except Literal.Error Word},
      (∀ {text w}, read text = .ok w → w.Fits) → ∀ w ∈ (st.parseLiterals read).data, w.Fits := by
    intro st read hread w hmem
    rcases List.mem_map.mp hmem with ⟨literal, _, rfl⟩
    exact literalWord_fits hread literal
  have hnone : ∀ w ∈ st.data, w.Fits := by
    intro w hmem
    rw [hdata] at hmem
    cases hmem
  unfold parseField
  cases h : st.kind
  case characters => exact parseCharacters_fits st
  case decimal => exact hliterals _ Literal.readDecimal_fits
  case octal => exact hliterals _ Literal.readOctal_fits
  all_goals exact hnone

theorem prepared_data (st : Statement) :
    st.prepared.data = (parseField { st with phase := .parsed }).data := by
  have hkept : st.prepared.data =
      data { parseField { st with phase := .parsed } with phase := .validated } :=
    of_frame beforeCheck data (fun _ => rfl) (check_beforeCheck _)
  exact hkept

theorem prepared_fits {st : Statement} (hdata : st.data = []) : ∀ w ∈ st.prepared.data, w.Fits := by
  rw [prepared_data]
  exact parseField_fits hdata

end Statement

theorem FirstPass.incoming_fits (pass : FirstPass) (card : Card) :
    ∀ w ∈ (pass.incoming card).data, w.Fits := by
  rcases statementOf_fresh pass card with ⟨_, _, hdata, _⟩
  exact Statement.prepared_fits hdata

/-!
# Words of statements

Templates and operands give words that fit, and copies of such words do.
-/

namespace SecondPass

def MapFits (words : WordMap) : Prop :=
  ∀ (address : Nat) (w : Word), words[address]? = some w → w.Fits

theorem leave_fits {map : WordMap} (hmap : MapFits map) (base : Address) {words : List Word}
    (hwords : ∀ w ∈ words, w.Fits) : MapFits (leave map base words) := by
  induction words generalizing map base with
  | nil => exact hmap
  | cons w rest ih =>
      apply ih
      · intro address v hv
        rw [Std.TreeMap.getElem?_insert] at hv
        split at hv
        · cases hv
          exact hwords w List.mem_cons_self
        · exact hmap address v hv
      · intro v hmem
        exact hwords v (List.mem_cons_of_mem w hmem)

theorem wordAt_fits {pass : SecondPass} (h : MapFits pass.words) (address : Address) :
    (pass.wordAt address).Fits := by
  unfold wordAt
  cases hword : pass.words[address.val]? with
  | none => decide
  | some w => exact h address.val w hword

theorem orderWord_fits {template : Word} (h : template.Fits) (numbers : List Int) :
    (orderWord template numbers).Fits := by
  have haddress : lowBits 15 (numbers.getD 0 0) < 32768 := lowBits_lt (by decide) _
  have htag : lowBits 3 (numbers.getD 1 0) < 8 := lowBits_lt (by decide) _
  have hdecrement : lowBits 15 (numbers.getD 2 0) < 32768 := lowBits_lt (by decide) _
  apply h.or
  apply Word.ofNat_fits
  simp only [Nat.shiftLeft_eq, Word.signWeight]
  omega

theorem Given.fits {pass : SecondPass} {st : Statement} {words : List Word} {scope : Scope}
    (h : Given pass st words scope) (hdata : ∀ w ∈ st.data, w.Fits)
    (hmap : MapFits pass.words) : ∀ w ∈ words, w.Fits := by
  intro w hmem
  cases h with
  | nothing => cases hmem
  | data => exact hdata w hmem
  | copies =>
      rcases List.mem_map.mp hmem with ⟨i, _, rfl⟩
      exact wordAt_fits hmap _
  | instruction _ _ hmnemonic =>
      rcases List.mem_singleton.mp hmem with rfl
      exact orderWord_fits (Order.template_fits hmnemonic) _
  | finish =>
      rcases transferTemplate_eq with ⟨order, horder, htemplate⟩
      rcases List.mem_singleton.mp hmem with rfl
      rw [htemplate]
      exact orderWord_fits (Order.template_fits horder) _

theorem Run.fits {pass last : SecondPass} {sts sts' : List Statement} (h : Run pass sts last sts')
    (hdata : ∀ st ∈ sts, ∀ w ∈ st.data, w.Fits) (hmap : MapFits pass.words) :
    ∀ st ∈ sts', ∀ w ∈ st.emitted, w.Fits := by
  induction h with
  | nil pass =>
      intro st hmem
      cases hmem
  | @cons pass next last st st' rest rest' hfirst _ ih =>
      have hkept : st'.data = st.data :=
        Statement.of_frame Statement.beforeWords Statement.data (fun _ => rfl) hfirst.kept
      have hwords : ∀ w ∈ st'.emitted, w.Fits :=
        hfirst.given.fits (hkept ▸ hdata st List.mem_cons_self) hmap
      have hleft : next.words = leave pass.words st'.base st'.emitted := hfirst.left
      intro other hmem
      rcases List.mem_cons.mp hmem with rfl | hrest
      · exact hwords
      · refine ih (fun st hst => hdata st (List.mem_cons_of_mem _ hst)) ?_ other hrest
        rw [hleft]
        exact leave_fits hmap _ hwords

end SecondPass

theorem Finished.fits {options : Options} {cards : List Card} {asm : Assembler}
    (h : Finished options cards asm) : ∀ st ∈ asm.statements, ∀ w ∈ st.emitted, w.Fits := by
  apply h.run.fits
  · intro st hmem
    rcases List.mem_map.mp hmem with ⟨entry, hentry, rfl⟩
    have hplaced := FirstPass.history_placed entry hentry
    have hkept : entry.statement.data = (entry.before.incoming entry.card).data :=
      Statement.of_frame Statement.beforeSpace Statement.data (fun _ => rfl) hplaced.beforeSpace
    rw [hkept]
    exact FirstPass.incoming_fits entry.before entry.card
  · intro address w hw
    simp at hw

end Ibm704

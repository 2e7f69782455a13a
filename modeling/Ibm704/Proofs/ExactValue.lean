import Ibm704.Proofs.OperandLanguage
import Ibm704.Proofs.References
import Ibm704.Proofs.SignedWords

/-!
# Values without overflow

The exact value of an operand is found by a tally over its tokens: terms are added
up, a term is the product of its factors, and digits spell a number however many
they are.  An expression is evaluated in 64 bits, and so are its literals.  Without
a division the outcome is nevertheless the exact value wrapped once, as wrapping goes
through sums, products and negation.  Hence an address never shows an overflow.
-/

namespace Ibm704
namespace Expr

/-!
# Exact values

The tally keeps the terms that are complete, the factors of the open term and the open
factor, and moves with each token by its role.
-/

namespace Lexeme

def sign : Lexeme → Int
  | minus => -1
  | _ => 1

def number (here : Address) (values : Text → Word) : Lexeme → Int
  | star => here.val
  | symbol chars =>
      if chars.all Char.isDigit then Nat.ofDigitChars 10 chars 0
      else (values (.ofChars chars)).toInt
  | _ => 0

end Lexeme

/-- The complete terms of a sum, the complete factors of the open term, and the open factor, which
is 0 as long as its atom is missing. -/
structure Tally where
  sum : Int
  termSign : Int
  product : Int
  factorSign : Int
  factor : Int

namespace Tally

def start : Tally :=
  ⟨0, 1, 1, 1, 0⟩

def total (tally : Tally) : Int :=
  tally.sum + tally.termSign * (tally.product * tally.factor)

def next (number : Lexeme → Int) (tally : Tally) (role : Role) (lexeme : Lexeme) : Tally :=
  match role with
  | .atom => { tally with factor := tally.factorSign * number lexeme }
  | .sign => { tally with factorSign := lexeme.sign }
  | .product =>
      { tally with product := tally.product * tally.factor, factorSign := 1, factor := 0 }
  | .sum => ⟨tally.total, lexeme.sign, 1, 1, 0⟩

def run (number : Lexeme → Int) (tally : Tally) (previous : Option Role) : List Lexeme → Int
  | [] => tally.total
  | lexeme :: rest =>
      let role := lexeme.role previous
      (tally.next number role lexeme).run number (some role) rest

end Tally

/-- The value of an operand in unbounded integers; where there are no tokens it is 0. -/
def exactValue (here : Address) (values : Text → Word) (text : Text) : Int :=
  match tokens text with
  | .ok found => Tally.start.run (Lexeme.number here values) none (found.map Token.lexeme)
  | .error _ => 0

/-!
# What a token does

One step of the reader is one of a few moves, which the role of the token decides.
-/

namespace Reader

def operand (reader : Reader) : Expr :=
  match reader.expected with
  | .signed => missing
  | .atom negative => signedAtom negative missing
  | .operator operand => operand

theorem result_eq (reader : Reader) : reader.result = reader.pending.sumWith reader.operand := by
  rcases reader with ⟨expected, pending⟩
  cases expected <;> rfl

inductive Moves (reader : Reader) (lexeme : Lexeme) : Role → Reader → Prop where
  | sum (subtract : Bool) (hsign : lexeme.sign = if subtract then -1 else 1) :
      Moves reader lexeme .sum ⟨.signed, reader.pending.thenSum reader.operand subtract⟩
  | product (divide : Bool) :
      Moves reader lexeme .product ⟨.signed, reader.pending.thenProduct reader.operand divide⟩
  | sign (negative : Bool) (hexpected : reader.expected = .signed)
      (hsign : lexeme.sign = if negative then -1 else 1) :
      Moves reader lexeme .sign ⟨.atom negative, reader.pending⟩
  | plain {atom : Expr} (hexpected : reader.expected = .signed) (hatom : atom? lexeme = some atom) :
      Moves reader lexeme .atom ⟨.operator atom, reader.pending⟩
  | signed {atom : Expr} {negative : Bool} (hexpected : reader.expected = .atom negative)
      (hatom : atom? lexeme = some atom) :
      Moves reader lexeme .atom ⟨.operator (signedAtom negative atom), reader.pending⟩

theorem Follows.moves {reader after : Reader} {previous : Option Role} {lexeme : Lexeme}
    (h : reader.Follows previous) (hnext : reader.next? lexeme = some after) :
    reader.Moves lexeme (lexeme.role previous) after := by
  cases h with
  | start left | sum left | product left factor =>
      cases lexeme with
      | plus => cases hnext; exact .sign false rfl rfl
      | minus => cases hnext; exact .sign true rfl rfl
      | zero | star | symbol chars => cases hnext; exact .plain rfl rfl
      | slash => cases hnext <;> exact .product true
  | sign negative pending =>
      cases lexeme with
      | plus => cases hnext; exact .sum false rfl
      | minus => cases hnext; exact .sum true rfl
      | slash => cases hnext; exact .product true
      | zero | star | symbol chars => cases hnext; exact .signed rfl rfl
  | atom operand pending =>
      cases lexeme with
      | plus => cases hnext; exact .sum false rfl
      | minus => cases hnext; exact .sum true rfl
      | star => cases hnext; exact .product false
      | slash => cases hnext; exact .product true
      | zero | symbol chars => cases hnext

end Reader

/-!
# Wrapping

Sums and products in 64 bits agree with those of unbounded integers up to multiples of
2 ^ 64.
-/

section

variable {σ : Type} (env : Environment σ) (s : σ) (values : Text → Word)

def Wraps (e : Expr) (value : Int) : Prop :=
  e.undivided = true → env.Binds s values e.references →
    ∀ t, env.Leads s t → ∃ u, e.eval env t = (.ok (Int64.ofInt value), u)

variable {env s values}

theorem wraps_pair {e left right : Expr} {a b value : Int}
    {operation : Int64 → Int64 → Except EvalError Int64}
    (heval : e.eval env = onBoth operation (left.eval env) (right.eval env))
    (hundivided : e.undivided = (left.undivided && right.undivided))
    (hreferences : e.references = left.references ++ right.references)
    (hvalue : operation (Int64.ofInt a) (Int64.ofInt b) = .ok (Int64.ofInt value))
    (hleft : Wraps env s values left a) (hright : Wraps env s values right b) :
    Wraps env s values e value := by
  intro hdivision hbinds t ht
  rw [hundivided, Bool.and_eq_true] at hdivision
  rw [hreferences] at hbinds
  rcases hleft hdivision.1 (hbinds.mono (List.subset_append_left _ _)) t ht with ⟨u, hfirst⟩
  have hu : env.Leads s u := by
    have hlater := eval_leads env left t
    rw [hfirst] at hlater
    exact ht.trans hlater
  rcases hright hdivision.2 (hbinds.mono (List.subset_append_right _ _)) u hu with ⟨w, hsecond⟩
  exact ⟨w, by rw [heval, onBoth_of_ok hfirst hsecond, hvalue]⟩

theorem wraps_add {left right : Expr} {a b : Int} (hleft : Wraps env s values left a)
    (hright : Wraps env s values right b) : Wraps env s values (.add left right) (a + b) :=
  wraps_pair rfl rfl (references_pair left right)
    (congrArg Except.ok (Int64.ofInt_add a b).symm) hleft hright

theorem wraps_sub {left right : Expr} {a b : Int} (hleft : Wraps env s values left a)
    (hright : Wraps env s values right b) : Wraps env s values (.sub left right) (a - b) :=
  wraps_pair rfl rfl (references_pair left right)
    (congrArg Except.ok (Int64.ofInt_sub a b).symm) hleft hright

theorem wraps_mul {left right : Expr} {a b : Int} (hleft : Wraps env s values left a)
    (hright : Wraps env s values right b) : Wraps env s values (.mul left right) (a * b) :=
  wraps_pair rfl rfl (references_pair left right)
    (congrArg Except.ok (Int64.ofInt_mul a b).symm) hleft hright

theorem wraps_div (left right : Expr) (value : Int) :
    Wraps env s values (.div left right) value := by
  intro hdivision
  cases hdivision

theorem wraps_neg {operand : Expr} {a : Int} (h : Wraps env s values operand a) :
    Wraps env s values (.neg operand) (-a) := by
  intro hdivision hbinds t ht
  rcases h hdivision hbinds t ht with ⟨u, hu⟩
  refine ⟨u, ?_⟩
  simp only [eval, hu, Int64.ofInt_neg]

theorem wraps_missing : Wraps env s values missing 0 :=
  fun _ _ t _ => ⟨t, rfl⟩

theorem wraps_signedAtom {atom : Expr} {a : Int} (h : Wraps env s values atom a)
    (negative : Bool) :
    Wraps env s values (signedAtom negative atom) ((if negative then -1 else 1) * a) := by
  cases negative with
  | true =>
      rw [if_pos rfl, Int.neg_one_mul]
      exact wraps_neg h
  | false =>
      rw [if_neg Bool.false_ne_true, Int.one_mul]
      exact h

theorem wraps_sym (name : Text) : Wraps env s values (.sym name) (values name).toInt := by
  intro _ hbinds t ht
  have hfound : (env.lookup name t).1 = some (values name) := hbinds name List.mem_cons_self t ht
  rcases hlookup : env.lookup name t with ⟨found, u⟩
  rw [hlookup] at hfound
  cases hfound
  refine ⟨u, ?_⟩
  simp only [eval, hlookup]

theorem wraps_symbol (chars : List Char) :
    Wraps env s values (ofSymbol chars) ((Lexeme.symbol chars).number env.here values) := by
  rw [Lexeme.number]
  by_cases hdigits : chars.all Char.isDigit = true
  · rw [ofSymbol, if_pos hdigits, if_pos hdigits]
    exact fun _ _ t _ => ⟨t, by rw [eval, Int64.ofInt_eq_ofNat]⟩
  · rw [ofSymbol, if_neg hdigits, if_neg hdigits]
    exact wraps_sym (.ofChars chars)

theorem wraps_atom {lexeme : Lexeme} {atom : Expr} (h : atom? lexeme = some atom) :
    Wraps env s values atom (lexeme.number env.here values) := by
  cases lexeme with
  | zero =>
      cases h
      exact fun _ _ t _ => ⟨t, rfl⟩
  | star =>
      cases h
      exact fun _ _ t _ => ⟨t, by rw [eval, Lexeme.number, Int64.ofInt_eq_ofNat]⟩
  | symbol chars =>
      cases h
      exact wraps_symbol chars
  | plus | minus | slash => cases h

/-!
# The reader and the tally

What the reader holds evaluates to what the tally counts, token by token.
-/

structure Reader.Counts (env : Environment σ) (s : σ) (values : Text → Word) (reader : Reader)
    (tally : Tally) : Prop where
  sum : ∀ {e a}, Wraps env s values e a →
    Wraps env s values (Pending.sumWith ⟨reader.pending.sum, none⟩ e)
      (tally.sum + tally.termSign * a)
  product : ∀ {e a}, Wraps env s values e a →
    Wraps env s values (reader.pending.productWith e) (tally.product * a)
  factor : Wraps env s values reader.operand tally.factor
  signed : reader.expected = .signed → tally.factorSign = 1 ∧ tally.factor = 0
  atom : ∀ {negative}, reader.expected = .atom negative →
    tally.factorSign = if negative then -1 else 1

namespace Reader

theorem sumWith_eq (pending : Pending) (e : Expr) :
    pending.sumWith e = Pending.sumWith ⟨pending.sum, none⟩ (pending.productWith e) := by
  rcases pending with ⟨_ | ⟨left, _ | _⟩, product⟩ <;> rfl

theorem Counts.result {reader : Reader} {tally : Tally} (h : reader.Counts env s values tally) :
    Wraps env s values (reader.pending.sumWith reader.operand) tally.total := by
  rw [sumWith_eq]
  exact h.sum (h.product h.factor)

theorem counts_start : Counts env s values ⟨.signed, .empty⟩ Tally.start := by
  refine ⟨?_, ?_, wraps_missing, fun _ => ⟨rfl, rfl⟩, (nomatch ·)⟩
  · intro e a he
    have hvalue : Tally.start.sum + Tally.start.termSign * a = a := by
      rw [Tally.start, Int.one_mul, Int.zero_add]
    rw [hvalue]
    exact he
  · intro e a he
    have hvalue : Tally.start.product * a = a := Int.one_mul a
    rw [hvalue]
    exact he

theorem Counts.thenSum {reader : Reader} {tally : Tally} (h : reader.Counts env s values tally)
    (subtract : Bool) :
    Counts env s values ⟨.signed, reader.pending.thenSum reader.operand subtract⟩
      ⟨tally.total, if subtract then -1 else 1, 1, 1, 0⟩ := by
  refine ⟨?_, ?_, wraps_missing, fun _ => ⟨rfl, rfl⟩, (nomatch ·)⟩
  · intro e a he
    cases subtract with
    | true =>
        have hvalue : tally.total + -1 * a = tally.total - a := by omega
        exact hvalue ▸ wraps_sub h.result he
    | false =>
        have hvalue : tally.total + 1 * a = tally.total + a := by omega
        exact hvalue ▸ wraps_add h.result he
  · intro e a he
    exact (Int.one_mul a).symm ▸ he

theorem Counts.thenProduct {reader : Reader} {tally : Tally} (h : reader.Counts env s values tally)
    (divide : Bool) :
    Counts env s values ⟨.signed, reader.pending.thenProduct reader.operand divide⟩
      { tally with product := tally.product * tally.factor, factorSign := 1, factor := 0 } := by
  refine ⟨h.sum, ?_, wraps_missing, fun _ => ⟨rfl, rfl⟩, (nomatch ·)⟩
  intro e a he
  cases divide with
  | true => exact wraps_div _ _ _
  | false => exact wraps_mul (h.product h.factor) he

theorem Counts.next {reader after : Reader} {tally : Tally} {role : Role} {lexeme : Lexeme}
    (h : reader.Counts env s values tally) (hmoves : reader.Moves lexeme role after) :
    after.Counts env s values (tally.next (Lexeme.number env.here values) role lexeme) := by
  cases hmoves with
  | sum subtract hsign =>
      rw [Tally.next, hsign]
      exact h.thenSum subtract
  | product divide => exact h.thenProduct divide
  | sign negative hexpected hsign =>
      refine ⟨h.sum, h.product, ?_, (nomatch ·), ?_⟩
      · have hfactor : tally.factor = (if negative then -1 else 1) * 0 := by
          rw [(h.signed hexpected).2, Int.mul_zero]
        exact hfactor ▸ wraps_signedAtom wraps_missing negative
      · intro other hother
        cases hother
        exact hsign
  | plain hexpected hatom =>
      refine ⟨h.sum, h.product, ?_, (nomatch ·), (nomatch ·)⟩
      rw [Tally.next, (h.signed hexpected).1, Int.one_mul]
      exact wraps_atom hatom
  | signed hexpected hatom =>
      refine ⟨h.sum, h.product, ?_, (nomatch ·), (nomatch ·)⟩
      rw [Tally.next, h.atom hexpected]
      exact wraps_signedAtom (wraps_atom hatom) _

theorem Counts.read? {reader : Reader} {tally : Tally} {previous : Option Role}
    {lexemes : List Lexeme} {e : Expr} (h : reader.Counts env s values tally)
    (hfollows : reader.Follows previous) (hread : reader.read? lexemes = some e) :
    Wraps env s values e (tally.run (Lexeme.number env.here values) previous lexemes) := by
  induction lexemes generalizing reader tally previous with
  | nil =>
      cases hread
      rw [result_eq]
      exact h.result
  | cons lexeme rest ih =>
      cases hnext : reader.next? lexeme with
      | none =>
          rw [read?_cons_of_none hnext] at hread
          cases hread
      | some after =>
          rw [read?_cons_of_some hnext] at hread
          exact ih (h.next (hfollows.moves hnext)) (hfollows.step hnext) hread

end Reader

theorem tokens_of_blank {text : Text} {found : List Token} (h : tokens text = .ok found)
    (hblank : text.trim.isEmpty = true) : found.map Token.lexeme = [] := by
  rcases divided_of_tokens h with ⟨pieces, rfl, hdivided, hlexemes⟩
  rw [← hlexemes]
  by_contra hsome
  rcases List.exists_mem_of_ne_nil _ hsome with ⟨lexeme, hmem⟩
  rw [trim_of_token hdivided hmem] at hblank
  cases hblank

theorem wraps_parse {text : Text} {e : Expr} (h : parse text = .ok e) :
    Wraps env s values e (exactValue env.here values text) := by
  have hstart : Reader.Follows ⟨.signed, .empty⟩ none := .start none
  unfold parse at h
  unfold exactValue
  split at h
  · rename_i hblank
    cases h
    cases htokens : tokens text with
    | error error => exact wraps_missing
    | ok found =>
        dsimp only
        rw [tokens_of_blank htokens hblank]
        exact wraps_missing
  · cases htokens : tokens text with
    | error error =>
        rw [htokens] at h
        cases h
    | ok found =>
        rw [htokens] at h
        have hread := (Reader.parseTokens_eq_ok_iff ⟨.signed, .empty⟩ found e).mp h
        exact Reader.counts_start.read? hstart hread

end

/-!
# Addresses

An address keeps 15 bits, so it does not show what 64 bits lose.
-/

/-- Without a division the address of an operand is its exact value modulo the size of core. -/
theorem addresses_without_overflow {text : Text} {e : Expr} (hparse : parse text = .ok e)
    (hundivided : e.undivided = true) {σ : Type} (env : Environment σ) (s : σ)
    (values : Text → Word) (hbinds : env.Binds s values e.references) :
    (e.evalAddress env s).1 = .ok (.ofInt (exactValue env.here values text)) := by
  rcases wraps_parse hparse hundivided hbinds s .refl with ⟨t, ht⟩
  rw [evalAddress, ht]
  exact congrArg Except.ok (ofInt_toInt_ofInt _)

/-- A literal of more than 64 bits times a negative number, then the location, subtracted with a sign
of its own. -/
theorem addresses_without_overflow_wide :
    let text : Text := .ofString "99999999999999999999*A--*"
    let e : Expr := .sub (.mul (.int (Int64.ofNat 99999999999999999999)) (.sym (.ofString "A")))
      (.neg .here)
    let scope : Scope := ⟨⟨[(.ofString "A", Word.ofInt (-3))]⟩, some (.ofInt 100)⟩
    let env := Scope.environment (.ofInt 5)
    let values : Text → Word := fun _ => Word.ofInt (-3)
    parse text = .ok e ∧ e.undivided = true ∧ env.Binds scope values e.references ∧
      exactValue env.here values text = -299999999999999999992 ∧
      (e.evalAddress env scope).1 = .ok (.ofInt (-299999999999999999992)) := by
  intro text e scope env values
  have hparse : parse text = .ok e := by decide
  have hbinds : env.Binds scope values e.references :=
    Scope.binds_of_defined (List.forall_mem_singleton.mpr rfl)
  have hexact : exactValue env.here values text = -299999999999999999992 := by decide
  refine ⟨hparse, rfl, hbinds, hexact, ?_⟩
  rw [addresses_without_overflow hparse rfl env scope values hbinds, hexact]

end Expr
end Ibm704

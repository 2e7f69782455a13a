import Mathlib.Data.List.Chain
import Ibm704.Proofs.OperandLanguage

/-!
# Expressions without parentheses

A sum of products of signed atoms needs no parentheses if its operators of one rank
are nested to the left.  Its tokens are written in their order, with white space
wherever one likes, except that two tokens made of stars must not touch.  Such a
text is read as the expression that it was written from.
-/

namespace Ibm704
namespace Expr

/-!
# Sums of products

Without parentheses only chains can be written that are nested to the left.
-/

inductive IsAtom : Expr → Prop where
  | int {value : Int64} (hsign : 0 ≤ value) : IsAtom (.int value)
  | sym {chars : List Char} (hsome : chars ≠ [])
      (hchars : ∀ c ∈ chars, Lexeme.isSymbolChar c = true)
      (hname : chars.all Char.isDigit = false) : IsAtom (.sym (.ofChars chars))
  | here : IsAtom .here
  | zero : IsAtom .zero

inductive IsFactor : Expr → Prop where
  | atom {e : Expr} (h : e.IsAtom) : IsFactor e
  | neg {e : Expr} (h : e.IsAtom) : IsFactor (.neg e)

inductive IsProduct : Expr → Prop where
  | factor {e : Expr} (h : e.IsFactor) : IsProduct e
  | mul {left right : Expr} (hleft : IsProduct left) (hright : right.IsFactor) :
      IsProduct (.mul left right)
  | div {left right : Expr} (hleft : IsProduct left) (hright : right.IsFactor) :
      IsProduct (.div left right)

inductive IsSum : Expr → Prop where
  | product {e : Expr} (h : e.IsProduct) : IsSum e
  | add {left right : Expr} (hleft : IsSum left) (hright : right.IsProduct) :
      IsSum (.add left right)
  | sub {left right : Expr} (hleft : IsSum left) (hright : right.IsProduct) :
      IsSum (.sub left right)

def written : Expr → List Lexeme
  | add left right => left.written ++ .plus :: right.written
  | sub left right => left.written ++ .minus :: right.written
  | mul left right => left.written ++ .star :: right.written
  | div left right => left.written ++ .slash :: right.written
  | neg operand => .minus :: operand.written
  | int value => [.symbol (Nat.toDigits 10 value.toInt.natAbs)]
  | sym name => [.symbol name.chars]
  | here => [.star]
  | zero => [.zero]

theorem written_ne_nil (e : Expr) : e.written ≠ [] := by
  cases e <;> simp [written]

/-!
# White space around tokens

White space may stand anywhere between tokens, and must where two tokens would be read
as one.
-/

namespace Piece

def starry : Piece → Bool
  | token .star | token .zero => true
  | _ => false

end Piece

/-- The pieces are the tokens with white space around them, and no tokens made of stars touch. -/
structure Spaces (tokens : List Lexeme) (pieces : List Piece) : Prop where
  tokens : lexemes pieces = tokens
  spaces : ∀ c, .space c ∈ pieces → Lexeme.isSpace c = true
  apart : pieces.IsChain fun first second => first.starry = true → second.starry = false

/-!
# Reading the tokens

After the tokens of a product or a sum the reader holds all of it, the last factor
apart.
-/

namespace IsAtom

theorem token {e : Expr} (h : e.IsAtom) :
    ∃ lexeme, e.written = [lexeme] ∧ atom? lexeme = some e ∧ lexeme.EndsBefore none := by
  cases h with
  | @int value hsign =>
      have hdigits : ∀ c ∈ Nat.toDigits 10 value.toInt.natAbs, c.isDigit = true :=
        fun c => isDigit_of_mem_decimal
      have hvalue : Int64.ofNat value.toInt.natAbs = value := by
        have hnonneg : 0 ≤ value.toInt := Int64.le_iff_toInt_le.mp hsign
        rw [← Int64.ofInt_eq_ofNat, Int.natAbs_of_nonneg hnonneg, Int64.ofInt_toInt]
      refine ⟨_, rfl, ?_, Nat.toDigits_ne_nil, ?_, ?_⟩
      · rw [atom?, ofSymbol, if_pos (List.all_eq_true.mpr hdigits), Nat.ofDigitChars_ten_toDigits,
          hvalue]
      · exact fun c hmem => isSymbolChar_of_isDigit (hdigits c hmem)
      · intro c hc
        cases hc
  | @sym chars hsome hchars hname =>
      have hplain : ∀ c ∈ chars, Plain c :=
        fun c hmem => (solid_of_isSymbolChar (hchars c hmem)).plain
      have hback : (Text.ofChars chars).chars = chars := by
        rw [Text.chars, Text.glyphs_ofChars hplain, List.map_map]
        exact List.map_id chars
      refine ⟨.symbol chars, ?_, ?_, hsome, hchars, ?_⟩
      · rw [written, hback]
      · rw [atom?, ofSymbol, hname, if_neg Bool.false_ne_true]
      · intro c hc
        cases hc
  | here => exact ⟨.star, rfl, rfl, (Option.some_ne_none '*').symm⟩
  | zero => exact ⟨.zero, rfl, rfl, trivial⟩

end IsAtom

namespace Reader

theorem next?_signed {lexeme : Lexeme} {atom : Expr} (h : atom? lexeme = some atom)
    (pending : Pending) :
    next? ⟨.signed, pending⟩ lexeme = some ⟨.operator atom, pending⟩ := by
  cases lexeme with
  | zero | star | symbol chars =>
      cases h
      rfl
  | plus | minus | slash => cases h

theorem next?_atom {lexeme : Lexeme} {atom : Expr} (h : atom? lexeme = some atom)
    (pending : Pending) :
    next? ⟨.atom true, pending⟩ lexeme = some ⟨.operator (.neg atom), pending⟩ := by
  cases lexeme with
  | zero | star | symbol chars =>
      cases h
      rfl
  | plus | minus | slash => cases h

def Passes (first : Reader) (tokens : List Lexeme) (last : Reader) : Prop :=
  ∀ rest, first.read? (tokens ++ rest) = last.read? rest

theorem Passes.join {first middle next last : Reader} {tokens others : List Lexeme}
    {operator : Lexeme} (h : first.Passes tokens middle)
    (hnext : middle.next? operator = some next) (hothers : next.Passes others last) :
    first.Passes (tokens ++ operator :: others) last := by
  intro rest
  calc first.read? ((tokens ++ operator :: others) ++ rest)
      = first.read? (tokens ++ (operator :: (others ++ rest))) := by
        rw [List.append_assoc, List.cons_append]
    _ = middle.read? (operator :: (others ++ rest)) := h _
    _ = next.read? (others ++ rest) := read?_cons_of_some hnext _
    _ = last.read? rest := hothers rest

theorem passes_factor {e : Expr} (h : e.IsFactor) (pending : Pending) :
    Passes ⟨.signed, pending⟩ e.written ⟨.operator e, pending⟩ := by
  intro rest
  cases h with
  | atom h =>
      rcases h.token with ⟨lexeme, hwritten, hatom, _⟩
      rw [hwritten, List.singleton_append, read?_cons_of_some (next?_signed hatom pending)]
  | neg h =>
      rcases h.token with ⟨lexeme, hwritten, hatom, _⟩
      have hminus : next? ⟨.signed, pending⟩ .minus = some ⟨.atom true, pending⟩ := rfl
      rw [written, hwritten, List.cons_append, List.singleton_append, read?_cons_of_some hminus,
        read?_cons_of_some (next?_atom hatom pending)]

theorem passes_product {e : Expr} (h : e.IsProduct) (sum : Option (Expr × Bool)) :
    ∃ operand product, Pending.productWith ⟨sum, product⟩ operand = e ∧
      Passes ⟨.signed, sum, none⟩ e.written ⟨.operator operand, sum, product⟩ := by
  induction h with
  | @factor e h => exact ⟨e, none, rfl, passes_factor h ⟨sum, none⟩⟩
  | @mul left right _ hright ih =>
      rcases ih with ⟨operand, product, rfl, hleft⟩
      exact ⟨right, some (_, false), rfl, hleft.join rfl (passes_factor hright _)⟩
  | @div left right _ hright ih =>
      rcases ih with ⟨operand, product, rfl, hleft⟩
      exact ⟨right, some (_, true), rfl, hleft.join rfl (passes_factor hright _)⟩

theorem passes_sum {e : Expr} (h : e.IsSum) :
    ∃ operand pending, Pending.sumWith pending operand = e ∧
      Passes ⟨.signed, .empty⟩ e.written ⟨.operator operand, pending⟩ := by
  induction h with
  | product h =>
      rcases passes_product h none with ⟨operand, product, he, hread⟩
      exact ⟨operand, ⟨none, product⟩, he, hread⟩
  | @add left right _ hright ih =>
      rcases ih with ⟨operand, pending, rfl, hleft⟩
      rcases passes_product hright (some (pending.sumWith operand, false)) with
        ⟨last, product, rfl, hproduct⟩
      exact ⟨last, ⟨some (_, false), product⟩, rfl, hleft.join rfl hproduct⟩
  | @sub left right _ hright ih =>
      rcases ih with ⟨operand, pending, rfl, hleft⟩
      rcases passes_product hright (some (pending.sumWith operand, true)) with
        ⟨last, product, rfl, hproduct⟩
      exact ⟨last, ⟨some (_, true), product⟩, rfl, hleft.join rfl hproduct⟩

theorem read?_written {e : Expr} (h : e.IsSum) : read? ⟨.signed, .empty⟩ e.written = some e := by
  rcases passes_sum h with ⟨operand, pending, he, hread⟩
  calc read? ⟨.signed, .empty⟩ e.written
      = read? ⟨.signed, .empty⟩ (e.written ++ []) := by rw [List.append_nil]
    _ = read? ⟨.operator operand, pending⟩ [] := hread []
    _ = some e := congrArg some he

end Reader

/-!
# Tokens that stay apart

Neither white space nor a token that may follow an atom goes on with its symbol.
-/

theorem IsFactor.endsBefore {e : Expr} (h : e.IsFactor) :
    ∀ lexeme ∈ e.written, lexeme.EndsBefore none := by
  intro lexeme hmem
  cases h with
  | atom h =>
      rcases h.token with ⟨token, hwritten, _, hends⟩
      rw [hwritten] at hmem
      rw [List.mem_singleton.mp hmem]
      exact hends
  | neg h =>
      rcases h.token with ⟨token, hwritten, _, hends⟩
      rw [written, hwritten] at hmem
      rcases List.mem_cons.mp hmem with rfl | hmem
      · trivial
      · rw [List.mem_singleton.mp hmem]
        exact hends

theorem endsBefore_join {tokens others : List Lexeme} {operator : Lexeme}
    (h : ∀ lexeme ∈ tokens, lexeme.EndsBefore none) (hoperator : operator.EndsBefore none)
    (hothers : ∀ lexeme ∈ others, lexeme.EndsBefore none) :
    ∀ lexeme ∈ tokens ++ operator :: others, lexeme.EndsBefore none := by
  intro lexeme hmem
  rcases List.mem_append.mp hmem with hmem | hmem
  · exact h lexeme hmem
  · rcases List.mem_cons.mp hmem with rfl | hmem
    · exact hoperator
    · exact hothers lexeme hmem

theorem IsProduct.endsBefore {e : Expr} (h : e.IsProduct) :
    ∀ lexeme ∈ e.written, lexeme.EndsBefore none := by
  induction h with
  | factor h => exact h.endsBefore
  | mul _ hright ih => exact endsBefore_join ih (Option.some_ne_none '*').symm hright.endsBefore
  | div _ hright ih => exact endsBefore_join ih trivial hright.endsBefore

theorem IsSum.endsBefore {e : Expr} (h : e.IsSum) :
    ∀ lexeme ∈ e.written, lexeme.EndsBefore none := by
  induction h with
  | product h => exact h.endsBefore
  | add _ hright ih => exact endsBefore_join ih trivial hright.endsBefore
  | sub _ hright ih => exact endsBefore_join ih trivial hright.endsBefore

theorem symbol_stops {rest : List Piece} (hspaces : ∀ c, .space c ∈ rest → Lexeme.isSpace c = true)
    (hatoms : AtomsApart (some .atom) (lexemes rest)) :
    ∀ c ∈ (spelling rest).head?, Lexeme.isSymbolChar c = false := by
  intro c hc
  cases rest with
  | nil => cases hc
  | cons piece others =>
      cases piece with
      | space other =>
          cases hc
          have hspace := hspaces c List.mem_cons_self
          rw [Bool.eq_false_iff]
          intro hsymbol
          rw [isSpace_of_isSymbolChar hsymbol] at hspace
          cases hspace
      | token other =>
          cases other with
          | zero | symbol _ => exact absurd rfl (hatoms.1 rfl)
          | plus | minus | star | slash =>
              cases hc
              rfl

theorem star_stops {rest : List Piece} (hspaces : ∀ c, .space c ∈ rest → Lexeme.isSpace c = true)
    (htokens : ∀ lexeme, .token lexeme ∈ rest → lexeme.EndsBefore none)
    (hstars : ∀ piece ∈ rest.head?, piece.starry = false) :
    (spelling rest).head? ≠ some '*' := by
  intro hc
  cases rest with
  | nil => cases hc
  | cons piece others =>
      have hnext := hstars piece rfl
      cases piece with
      | space other =>
          cases hc
          cases hspaces '*' List.mem_cons_self
      | token other =>
          cases other with
          | zero | star => cases hnext
          | plus | minus | slash => exact absurd (Option.some.inj hc) (by decide)
          | symbol chars =>
              rcases htokens _ List.mem_cons_self with ⟨hsome, hchars, _⟩
              rcases List.exists_cons_of_ne_nil hsome with ⟨c, run, rfl⟩
              cases hc
              cases hchars '*' List.mem_cons_self

theorem divided_of_apart {pieces : List Piece} {previous : Option Role}
    (htokens : ∀ lexeme, .token lexeme ∈ pieces → lexeme.EndsBefore none)
    (hspaces : ∀ c, .space c ∈ pieces → Lexeme.isSpace c = true)
    (hstars : pieces.IsChain fun first second => first.starry = true → second.starry = false)
    (hatoms : AtomsApart previous (lexemes pieces)) : Divided pieces := by
  induction pieces generalizing previous with
  | nil => trivial
  | cons piece rest ih =>
      have htokens' := fun lexeme hmem => htokens lexeme (List.mem_cons_of_mem piece hmem)
      have hspaces' := fun c hmem => hspaces c (List.mem_cons_of_mem piece hmem)
      rcases List.isChain_cons.mp hstars with ⟨hnext, hstars'⟩
      cases piece with
      | space c => exact ⟨hspaces c List.mem_cons_self, ih htokens' hspaces' hstars' hatoms⟩
      | token lexeme =>
          refine ⟨?_, ih htokens' hspaces' hstars' hatoms.2⟩
          have hends := htokens lexeme List.mem_cons_self
          cases lexeme with
          | zero | plus | minus | slash => trivial
          | star => exact star_stops hspaces' htokens' fun other hother => hnext other hother rfl
          | symbol chars => exact ⟨hends.1, hends.2.1, symbol_stops hspaces' hatoms.2⟩

/-!
# Reading a written sum

A sum that is written with white space around its tokens is read back as the sum.
-/

/-- A sum of products of signed atoms, written without parentheses and with white space where one
likes, is read as this sum. -/
theorem written_sums_read_back {e : Expr} (he : e.IsSum) {pieces : List Piece}
    (hpieces : Spaces e.written pieces) : parse (.ofChars (spelling pieces)) = .ok e := by
  have hread := Reader.read?_written he
  rw [← hpieces.tokens] at hread
  have htokens : ∀ lexeme, .token lexeme ∈ pieces → lexeme.EndsBefore none := by
    intro lexeme hmem
    have hwritten := mem_lexemes.mpr hmem
    rw [hpieces.tokens] at hwritten
    exact he.endsBefore lexeme hwritten
  have hatoms := ((Reader.read?_isSome_iff (.start none) _).mp ⟨e, hread⟩).1
  have hdivided := divided_of_apart htokens hpieces.spaces hpieces.apart hatoms
  have hink : (Text.ofChars (spelling pieces)).trim.isEmpty = false := by
    rcases List.exists_mem_of_ne_nil _ e.written_ne_nil with ⟨lexeme, hwritten⟩
    rw [← hpieces.tokens] at hwritten
    exact trim_of_token hdivided hwritten
  exact (parse_eq_ok_iff hdivided hink e).mpr hread

/-- Here times here, and a quotient whose left side is an explicit zero. -/
theorem written_sums_read_back_stars :
    let e : Expr := .sub (.add (.mul (.neg (.sym (.ofString "A1"))) .here)
      (.div .zero (.int 10))) (.mul .here .here)
    let pieces : List Piece := [.token .minus, .token (.symbol ['A', '1']), .token .star,
      .space ' ', .token .star, .token .plus, .space '\t', .space ' ', .token .zero,
      .token .slash, .token (.symbol ['1', '0']), .space '\n', .token .minus, .token .star,
      .space ' ', .token .star, .space ' ', .token .star, .space ' ']
    e.IsSum ∧ Spaces e.written pieces ∧
      parse (.ofString "-A1* *+\t **/10\n-* * * ") = .ok e := by
  intro e pieces
  have hname : IsAtom (.sym (.ofString "A1")) :=
    @IsAtom.sym ['A', '1'] (List.cons_ne_nil _ _)
      (List.forall_mem_cons.mpr ⟨rfl, List.forall_mem_singleton.mpr rfl⟩) rfl
  have hsum : e.IsSum :=
    .sub
      (.add (.product (.mul (.factor (.neg hname)) (.atom .here)))
        (.div (.factor (.atom .zero)) (.atom (.int (by decide)))))
      (.mul (.factor (.atom .here)) (.atom .here))
  have hspaces : Spaces e.written pieces := by
    refine ⟨by decide, ?_, by decide⟩
    intro c hmem
    have hc : c = ' ' ∨ c = '\t' ∨ c = ' ' ∨ c = '\n' ∨ c = ' ' := by simpa [pieces] using hmem
    rcases hc with rfl | rfl | rfl | rfl | rfl <;> rfl
  have htext : Text.ofString "-A1* *+\t **/10\n-* * * " = .ofChars (spelling pieces) := by decide
  refine ⟨hsum, hspaces, ?_⟩
  rw [htext]
  exact written_sums_read_back hsum hspaces

end Expr
end Ibm704

import Ibm704.Proofs.OperandGrammar
import Ibm704.Proofs.OperandTokens

/-!
# The language of operands

Each token of an operand is read as an atom, as a sign, or as an operator of a sum
or a product, which depends on the token before it alone.  An operand is read
unless a token that can only be an atom follows an atom, or a slash stands at the
start or after the operator of a sum.  Where an atom is missing the operand is
read as if there were a 0.
-/

namespace Ibm704
namespace Expr

/-!
# Roles of tokens

A token is an atom, a sign, or an operator of a sum or of a product.  Which of them it
is depends on the role of the token before it.
-/

inductive Role where
  | atom
  | sign
  | sum
  | product
  deriving DecidableEq, Repr

namespace Role

def joins : Role → Bool
  | sum | product => true
  | atom | sign => false

end Role

namespace Lexeme

/-- What a token is read as after a token in the role `previous`. -/
def role (previous : Option Role) : Lexeme → Role
  | zero | symbol _ => .atom
  | star => if previous = some .atom then .product else .atom
  | slash => .product
  | plus | minus => if previous = some .atom ∨ previous = some .sign then .sum else .sign

def named : Lexeme → Bool
  | zero | symbol _ => true
  | _ => false

end Lexeme

def AtomsApart (previous : Option Role) : List Lexeme → Prop
  | [] => True
  | lexeme :: rest =>
      (lexeme.named = true → previous ≠ some .atom) ∧
        AtomsApart (some (lexeme.role previous)) rest

def QuotientsLed (previous : Option Role) : List Lexeme → Prop
  | [] => True
  | lexeme :: rest =>
      (lexeme = .slash → previous ≠ none ∧ previous ≠ some .sum) ∧
        QuotientsLed (some (lexeme.role previous)) rest

/-- The pieces with a 0 wherever an atom is missing: before an operator, or at the end, if what
stands there on the left is no atom. -/
def filled (previous : Option Role) : List Piece → List Piece
  | [] => if previous = some .atom then [] else [.token (.symbol ['0'])]
  | .space c :: rest => .space c :: filled previous rest
  | .token lexeme :: rest =>
      let others := .token lexeme :: filled (some (lexeme.role previous)) rest
      if (lexeme.role previous).joins ∧ previous ≠ some .atom then
        .token (.symbol ['0']) :: others
      else
        others

/-!
# The reader, step by step

The state between two tokens says all that later tokens can ask about the earlier
ones.
-/

structure Reader where
  expected : Expected
  pending : Pending

namespace Reader

def next? (reader : Reader) (lexeme : Lexeme) : Option Reader :=
  match reader.expected with
  | .operator operand =>
      match lexeme with
      | .plus => some ⟨.signed, reader.pending.thenSum operand false⟩
      | .minus => some ⟨.signed, reader.pending.thenSum operand true⟩
      | .star => some ⟨.signed, reader.pending.thenProduct operand false⟩
      | .slash => some ⟨.signed, reader.pending.thenProduct operand true⟩
      | _ => none
  | .signed =>
      match lexeme with
      | .plus => some ⟨.atom false, reader.pending⟩
      | .minus => some ⟨.atom true, reader.pending⟩
      | .slash =>
          if reader.pending.product.isSome then
            some ⟨.signed, reader.pending.thenProduct missing true⟩
          else
            none
      | _ => (atom? lexeme).map fun atom => ⟨.operator atom, reader.pending⟩
  | .atom negative =>
      match lexeme with
      | .plus => some ⟨.signed, reader.pending.thenSum (signedAtom negative missing) false⟩
      | .minus => some ⟨.signed, reader.pending.thenSum (signedAtom negative missing) true⟩
      | .slash => some ⟨.signed, reader.pending.thenProduct (signedAtom negative missing) true⟩
      | _ => (atom? lexeme).map fun atom =>
          ⟨.operator (signedAtom negative atom), reader.pending⟩

def result (reader : Reader) : Expr :=
  match reader.expected with
  | .signed => reader.pending.sumWith missing
  | .atom negative => reader.pending.sumWith (signedAtom negative missing)
  | .operator operand => reader.pending.sumWith operand

def read? (reader : Reader) : List Lexeme → Option Expr
  | [] => some reader.result
  | lexeme :: rest =>
      match reader.next? lexeme with
      | some next => next.read? rest
      | none => none

theorem read?_cons_of_some {reader next : Reader} {lexeme : Lexeme}
    (h : reader.next? lexeme = some next) (rest : List Lexeme) :
    reader.read? (lexeme :: rest) = next.read? rest := by
  rw [read?, h]

theorem read?_cons_of_none {reader : Reader} {lexeme : Lexeme} (h : reader.next? lexeme = none)
    (rest : List Lexeme) : reader.read? (lexeme :: rest) = none := by
  rw [read?, h]

theorem parseTokens_nil (reader : Reader) :
    parseTokens reader.expected reader.pending [] = .ok reader.result := by
  rcases reader with ⟨expected, pending⟩
  cases expected <;> rfl

theorem parseTokens_cons (reader : Reader) (token : Token) (rest : List Token) :
    parseTokens reader.expected reader.pending (token :: rest) =
      match reader.next? token.lexeme with
      | some next => parseTokens next.expected next.pending rest
      | none => .error (.unexpectedToken token) := by
  rcases reader with ⟨expected, pending⟩
  rcases token with ⟨lexeme, position⟩
  cases expected with
  | operator operand => cases lexeme <;> rfl
  | atom negative => cases lexeme <;> rfl
  | signed =>
      cases lexeme with
      | slash => rcases pending with ⟨sum, _ | product⟩ <;> rfl
      | _ => rfl

theorem parseTokens_eq_ok_iff (reader : Reader) (tokens : List Token) (e : Expr) :
    parseTokens reader.expected reader.pending tokens = .ok e ↔
      reader.read? (tokens.map Token.lexeme) = some e := by
  induction tokens generalizing reader with
  | nil =>
      rw [parseTokens_nil, List.map_nil, read?, Except.ok.injEq, Option.some.injEq]
  | cons token rest ih =>
      rw [parseTokens_cons, List.map_cons, read?]
      cases reader.next? token.lexeme with
      | some next => exact ih next
      | none => simp

/-!
# States and roles

The state after a token is known up to its expressions from the role of the token.
-/

inductive Follows : Reader → Option Role → Prop where
  | start (left : Option (Expr × Bool)) : Follows ⟨.signed, left, none⟩ none
  | sum (left : Option (Expr × Bool)) : Follows ⟨.signed, left, none⟩ (some .sum)
  | product (left : Option (Expr × Bool)) (factor : Expr × Bool) :
      Follows ⟨.signed, left, some factor⟩ (some .product)
  | sign (negative : Bool) (pending : Pending) : Follows ⟨.atom negative, pending⟩ (some .sign)
  | atom (operand : Expr) (pending : Pending) : Follows ⟨.operator operand, pending⟩ (some .atom)

variable {reader after : Reader} {previous : Option Role} {lexeme : Lexeme}

theorem Follows.step (h : reader.Follows previous) (hnext : reader.next? lexeme = some after) :
    after.Follows (some (lexeme.role previous)) := by
  cases h with
  | start left => cases lexeme <;> cases hnext <;> constructor
  | sum left => cases lexeme <;> cases hnext <;> constructor
  | product left factor => cases lexeme <;> cases hnext <;> constructor
  | sign negative pending => cases lexeme <;> cases hnext <;> constructor
  | atom operand pending => cases lexeme <;> cases hnext <;> constructor

theorem Follows.next?_isSome (h : reader.Follows previous) (lexeme : Lexeme) :
    (reader.next? lexeme).isSome = true ↔ (lexeme.named = true → previous ≠ some .atom) ∧
      (lexeme = .slash → previous ≠ none ∧ previous ≠ some .sum) := by
  cases h <;> cases lexeme <;> simp [next?, atom?, Lexeme.named]

theorem read?_isSome_iff (h : reader.Follows previous) (lexemes : List Lexeme) :
    (∃ e, reader.read? lexemes = some e) ↔
      AtomsApart previous lexemes ∧ QuotientsLed previous lexemes := by
  induction lexemes generalizing reader previous with
  | nil => exact ⟨fun _ => ⟨trivial, trivial⟩, fun _ => ⟨reader.result, rfl⟩⟩
  | cons lexeme rest ih =>
      have hcan := h.next?_isSome lexeme
      cases hnext : reader.next? lexeme with
      | none =>
          rw [hnext] at hcan
          rw [read?_cons_of_none hnext]
          constructor
          · rintro ⟨e, he⟩
            cases he
          · rintro ⟨hapart, hled⟩
            exact absurd (hcan.mpr ⟨hapart.1, hled.1⟩) Bool.false_ne_true
      | some next =>
          rw [hnext] at hcan
          rcases hcan.mp rfl with ⟨hapart, hled⟩
          rw [read?_cons_of_some hnext, ih (h.step hnext)]
          constructor
          · rintro ⟨hrest, hothers⟩
            exact ⟨⟨hapart, hrest⟩, hled, hothers⟩
          · rintro ⟨hrest, hothers⟩
            exact ⟨hrest.2, hothers.2⟩

/-!
# Missing atoms

An operator without an atom on its left is read as if a 0 stood there.
-/

def zeroed (reader : Reader) : Reader :=
  match reader.expected with
  | .signed => ⟨.operator missing, reader.pending⟩
  | .atom negative => ⟨.operator (signedAtom negative missing), reader.pending⟩
  | .operator _ => reader

theorem result_zeroed (reader : Reader) : reader.zeroed.result = reader.result := by
  rcases reader with ⟨expected, pending⟩
  cases expected <;> rfl

theorem Follows.next?_zero (h : reader.Follows previous) (hprevious : previous ≠ some .atom) :
    reader.next? (.symbol ['0']) = some reader.zeroed := by
  cases h with
  | atom operand pending => exact absurd rfl hprevious
  | start left | sum left => rfl
  | product left factor => rfl
  | sign negative pending => rfl

theorem Follows.next?_zeroed (h : reader.Follows previous)
    (hjoins : (lexeme.role previous).joins = true) (hnext : reader.next? lexeme = some after) :
    reader.zeroed.next? lexeme = some after := by
  cases h with
  | atom operand pending => exact hnext
  | sign negative pending =>
      cases lexeme with
      | plus | minus | slash => exact hnext
      | zero | star | symbol _ => cases hjoins
  | product left factor =>
      cases lexeme with
      | slash => exact hnext
      | zero | plus | minus | star | symbol _ => cases hjoins
  | start left | sum left =>
      cases lexeme with
      | slash => cases hnext
      | zero | plus | minus | star | symbol _ => cases hjoins

theorem read?_filled (h : reader.Follows previous) {pieces : List Piece} {e : Expr}
    (hread : reader.read? (lexemes pieces) = some e) :
    reader.read? (lexemes (filled previous pieces)) = some e := by
  induction pieces generalizing reader previous with
  | nil =>
      unfold filled
      split
      · exact hread
      · rename_i hprevious
        change reader.read? [.symbol ['0']] = some e
        rw [read?_cons_of_some (h.next?_zero hprevious), read?, result_zeroed]
        exact hread
  | cons piece rest ih =>
      cases piece with
      | space c => exact ih h hread
      | token lexeme =>
          change reader.read? (lexeme :: lexemes rest) = some e at hread
          cases hnext : reader.next? lexeme with
          | none =>
              rw [read?_cons_of_none hnext] at hread
              cases hread
          | some next =>
              rw [read?_cons_of_some hnext] at hread
              have hfilled := ih (h.step hnext) hread
              unfold filled
              dsimp only
              split
              · rename_i hmissing
                change reader.read? (.symbol ['0'] :: lexeme :: lexemes _) = some e
                rw [read?_cons_of_some (h.next?_zero hmissing.2),
                  read?_cons_of_some (h.next?_zeroed hmissing.1 hnext)]
                exact hfilled
              · change reader.read? (lexeme :: lexemes _) = some e
                rw [read?_cons_of_some hnext]
                exact hfilled

end Reader

/-!
# Texts with their missing atoms

A 0 that is put in is a token by itself, so the text with its missing atoms is divided
as the text is.
-/

theorem endsBefore_singleton {c : Char} {next : Option Char} (h : Lexeme.isSymbolChar c = true)
    (hnext : ∀ other ∈ next, Lexeme.isSymbolChar other = false) :
    (Lexeme.symbol [c]).EndsBefore next :=
  ⟨List.cons_ne_nil c [], List.forall_mem_singleton.mpr h, hnext⟩

theorem isSymbolChar_head_of_joins {lexeme : Lexeme} {previous : Option Role}
    (h : (lexeme.role previous).joins = true) (rest : List Char) :
    ∀ c ∈ (lexeme.chars ++ rest).head?, Lexeme.isSymbolChar c = false := by
  intro c hc
  cases lexeme with
  | zero | symbol _ => cases h
  | plus | minus | star | slash =>
      cases hc
      rfl

theorem head?_filled {pieces : List Piece} (h : Divided pieces) (previous : Option Role) :
    (spelling (filled previous pieces)).head? = (spelling pieces).head? ∨
      previous ≠ some .atom ∧ (spelling (filled previous pieces)).head? = some '0' := by
  cases pieces with
  | nil =>
      unfold filled
      split
      · exact Or.inl rfl
      · rename_i hprevious
        exact Or.inr ⟨hprevious, rfl⟩
  | cons piece rest =>
      cases piece with
      | space c => exact Or.inl rfl
      | token lexeme =>
          unfold filled
          dsimp only
          split
          · rename_i hmissing
            exact Or.inr ⟨hmissing.2, rfl⟩
          · rcases leading?_of_endsBefore h.1 with ⟨c, others, hchars, _⟩
            left
            rw [spelling_cons, spelling_cons, Piece.chars, hchars]
            rfl

theorem endsBefore_filled {lexeme : Lexeme} {rest : List Piece} (previous : Option Role)
    (hends : lexeme.EndsBefore (spelling rest).head?) (hrest : Divided rest) :
    lexeme.EndsBefore (spelling (filled (some (lexeme.role previous)) rest)).head? := by
  rcases head?_filled hrest (some (lexeme.role previous)) with hsame | ⟨hatom, hzero⟩
  · rw [hsame]
    exact hends
  · rw [hzero]
    cases lexeme with
    | symbol chars => exact absurd rfl hatom
    | star => exact fun hstar => absurd (Option.some.inj hstar) (by decide)
    | zero | plus | minus | slash => trivial

theorem divided_filled {pieces : List Piece} (h : Divided pieces) (previous : Option Role) :
    Divided (filled previous pieces) := by
  induction pieces generalizing previous with
  | nil =>
      unfold filled
      split
      · trivial
      · refine ⟨endsBefore_singleton rfl ?_, trivial⟩
        intro c hc
        cases hc
  | cons piece rest ih =>
      cases piece with
      | space c => exact ⟨h.1, ih h.2 previous⟩
      | token lexeme =>
          have hothers : Divided (.token lexeme :: filled (some (lexeme.role previous)) rest) :=
            ⟨endsBefore_filled previous h.1 h.2, ih h.2 _⟩
          unfold filled
          dsimp only
          split
          · rename_i hmissing
            refine ⟨endsBefore_singleton rfl ?_, hothers⟩
            exact isSymbolChar_head_of_joins hmissing.1 _
          · exact hothers

theorem mem_spelling_filled {pieces : List Piece} {c : Char} (h : c ∈ spelling pieces)
    (previous : Option Role) : c ∈ spelling (filled previous pieces) := by
  induction pieces generalizing previous with
  | nil => cases h
  | cons piece rest ih =>
      rw [spelling_cons] at h
      have hothers : ∀ previous, c ∈ spelling (piece :: filled previous rest) := by
        intro previous
        rw [spelling_cons]
        rcases List.mem_append.mp h with hpiece | hrest
        · exact List.mem_append_left _ hpiece
        · exact List.mem_append_right _ (ih hrest previous)
      cases piece with
      | space other => exact hothers previous
      | token lexeme =>
          unfold filled
          dsimp only
          split
          · exact List.mem_cons_of_mem _ (hothers _)
          · exact hothers _

theorem trim_filled {pieces : List Piece} (h : Divided pieces)
    (hink : (Text.ofChars (spelling pieces)).trim.isEmpty = false) (previous : Option Role) :
    (Text.ofChars (spelling (filled previous pieces))).trim.isEmpty = false := by
  rcases Text.exists_ink_of_trim hink with ⟨glyph, hmem, hglyph⟩
  rw [Text.glyphs_ofChars (plain_of_divided h)] at hmem
  rcases List.mem_map.mp hmem with ⟨c, hc, rfl⟩
  refine Text.trim_isEmpty_of_ink ?_ hglyph
  rw [Text.glyphs_ofChars (plain_of_divided (divided_filled h previous))]
  exact List.mem_map_of_mem (mem_spelling_filled hc previous)

/-! # The language -/

theorem parse_eq_ok_iff {pieces : List Piece} (h : Divided pieces)
    (hink : (Text.ofChars (spelling pieces)).trim.isEmpty = false) (e : Expr) :
    parse (.ofChars (spelling pieces)) = .ok e ↔
      Reader.read? ⟨.signed, .empty⟩ (lexemes pieces) = some e := by
  rcases tokens_of_divided h with ⟨found, htokens, hlexemes⟩
  rw [← hlexemes, ← Reader.parseTokens_eq_ok_iff, parse, hink, if_neg Bool.false_ne_true,
    htokens]
  rfl

/-- A text with something on it is an operand if it divides into tokens, no token that is always
an atom follows an atom, and no slash stands at the start or after the operator of a sum.  The
operand is the same with a 0 for every missing atom, and it is read as the levels of the grammar
read it, or refused where they stop. -/
theorem operand_language {text : Text} (hink : text.trim.isEmpty = false) :
    ((∃ e, parse text = .ok e) ↔
      ∃ pieces, text = .ofChars (spelling pieces) ∧ Divided pieces ∧
        AtomsApart none (lexemes pieces) ∧ QuotientsLed none (lexemes pieces)) ∧
    (∀ pieces e, text = .ofChars (spelling pieces) → Divided pieces → parse text = .ok e →
      parse (.ofChars (spelling (filled none pieces))) = .ok e) ∧
    parse text = (tokens text).bind descend := by
  have hstart : Reader.Follows ⟨.signed, .empty⟩ none := .start none
  refine ⟨?_, ?_, ?_⟩
  · constructor
    · rintro ⟨e, hparse⟩
      cases htokens : tokens text with
      | error error =>
          rw [parse, hink, if_neg Bool.false_ne_true, htokens] at hparse
          cases hparse
      | ok found =>
          rcases divided_of_tokens htokens with ⟨pieces, rfl, hdivided, _⟩
          have hread := (parse_eq_ok_iff hdivided hink e).mp hparse
          exact ⟨pieces, rfl, hdivided, (Reader.read?_isSome_iff hstart _).mp ⟨e, hread⟩⟩
    · rintro ⟨pieces, rfl, hdivided, hlanguage⟩
      rcases (Reader.read?_isSome_iff hstart _).mpr hlanguage with ⟨e, hread⟩
      exact ⟨e, (parse_eq_ok_iff hdivided hink e).mpr hread⟩
  · rintro pieces e rfl hdivided hparse
    rw [parse_eq_ok_iff (divided_filled hdivided none) (trim_filled hdivided hink none)]
    exact Reader.read?_filled hstart ((parse_eq_ok_iff hdivided hink e).mp hparse)
  · rw [parse, hink, if_neg Bool.false_ne_true, funext parseTokens_eq_descend]

/-- A slash after a sign, and a sum without its right side. -/
theorem operand_language_missing_atoms :
    (Text.ofString "-/A +").trim.isEmpty = false ∧
    Divided [.token .minus, .token .slash, .token (.symbol ['A']), .space ' ', .token .plus] ∧
    (∃ e, parse (.ofString "-/A +") = .ok e) ∧
    ∀ e, parse (.ofString "-/A +") = .ok e → parse (.ofString "-0/A +0") = .ok e := by
  have hink : (Text.ofString "-/A +").trim.isEmpty = false := by decide
  have hdivided : Divided
      [.token .minus, .token .slash, .token (.symbol ['A']), .space ' ', .token .plus] := by
    refine ⟨trivial, trivial, endsBefore_singleton rfl ?_, rfl, trivial, trivial⟩
    intro c hc
    cases hc
    rfl
  refine ⟨hink, hdivided, (operand_language hink).1.mpr ⟨_, ?_, hdivided, ?_, ?_⟩, ?_⟩
  · decide
  · exact ⟨by decide, by decide, by decide, by decide, trivial⟩
  · exact ⟨by decide, by decide, by decide, by decide, trivial⟩
  · intro e hparse
    have hfilled := (operand_language hink).2.1 _ e (by decide) hdivided hparse
    have htext : Text.ofString "-0/A +0" = .ofChars (spelling (filled none
        [.token .minus, .token .slash, .token (.symbol ['A']), .space ' ', .token .plus])) := by
      decide
    rw [htext]
    exact hfilled

/-- With nothing before it a slash is refused, although no two atoms meet and a 0 would do. -/
theorem slash_without_left_side :
    (Text.ofString "/5").trim.isEmpty = false ∧
    Text.ofString "/5" = .ofChars (spelling [.token .slash, .token (.symbol ['5'])]) ∧
    Divided [.token .slash, .token (.symbol ['5'])] ∧
    AtomsApart none (lexemes [.token .slash, .token (.symbol ['5'])]) ∧
    parse (.ofString "/5") = .error (.unexpectedToken ⟨.slash, .start⟩) ∧
    parse (.ofChars (spelling (filled none [.token .slash, .token (.symbol ['5'])]))) =
      .ok (.div (.int 0) (.int 5)) := by
  refine ⟨by decide, by decide, ⟨trivial, endsBefore_singleton rfl ?_, trivial⟩,
    ⟨by decide, by decide, trivial⟩, by decide, by decide⟩
  intro c hc
  cases hc

end Expr
end Ibm704

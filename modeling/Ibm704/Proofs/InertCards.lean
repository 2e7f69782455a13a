import Ibm704.Proofs.SourceLines

/-!
# Inert cards

Remarks, blank cards, headings, library cards, cards with an unknown operation,
blocks and equations without a location symbol, and whatever stands after an end
card: such a card can be put between any two lines of a source.  What is assembled
has one more statement, which has no words, and is otherwise the same.
-/

namespace Ibm704

/-!
# Blocked statements

Blocks and equations without a location symbol are blocked.
-/

namespace Text

theorem capitals_ne_nil {text : Text} (h : text ≠ []) : text.capitals ≠ [] := by
  rcases List.exists_cons_of_ne_nil h with ⟨byte, rest, rfl⟩
  have hglyphs : ∃ glyph others, glyphs (byte :: rest) = glyph :: others := by
    unfold glyphs glyphsAfter
    split
    · exact ⟨_, _, rfl⟩
    · exact ⟨_, _, rfl⟩
  rcases hglyphs with ⟨glyph, others, hglyphs⟩
  unfold capitals chars ofChars
  rw [hglyphs, List.map_cons, List.map_cons, List.flatMap_cons]
  exact List.append_ne_nil_of_left_ne_nil String.utf8EncodeChar_ne_nil _

end Text

namespace Statement

theorem requireLocation_blocked {st : Statement} (h : st.location = []) :
    st.requireLocation.blocked = true := by
  unfold requireLocation
  rw [h]
  rfl

theorem prepared_blocked {st : Statement}
    (hkind : st.kind = .blockStart ∨ st.kind = .blockEnd ∨ st.kind = .equate ∨ st.kind = .synonym)
    (hlocation : st.location = []) : st.prepared.blocked = true := by
  have hparsed := parseField_beforeParse { st with phase := .parsed }
  have hparsedKind := of_frame beforeParse kind (fun _ => rfl) hparsed
  have hchecked : st.prepared =
      (checkArity { parseField { st with phase := .parsed } with phase := .validated }
        1 1).requireLocation := by
    unfold prepared check
    dsimp only
    rw [hparsedKind]
    rcases hkind with hkind | hkind | hkind | hkind <;> simp only [hkind]
  rw [hchecked]
  apply requireLocation_blocked
  rw [of_frame withoutOperands location (fun _ => rfl) (checkArity_withoutOperands _ 1 1)]
  exact (of_frame beforeParse location (fun _ => rfl) hparsed).trans hlocation

end Statement

/-!
# Inert cards

An operation that is nowhere listed belongs to a remark or to an instruction without
an order.
-/

namespace Card

/-- The cards that the assembler does nothing with, wherever they stand.  Remarks are the cards
with a star, the blank ones, and those whose operation says so. -/
inductive Inert (card : Card) : Prop where
  | remark (h : (Statement.classify card).1 = .remark)
  | heading (h : (Statement.classify card).1 = .heading)
  | library (h : (Statement.classify card).1 = .library)
  | unknown (hoperation : card.operation ≠ [])
      (hmnemonic : StatementKind.mnemonics.lookup card.operation.capitals = none)
      (horder : Order.ofMnemonic? card.operation.capitals = none)
  | unlabelled
      (hkind : (Statement.classify card).1 = .blockStart ∨
        (Statement.classify card).1 = .blockEnd ∨ (Statement.classify card).1 = .equate ∨
        (Statement.classify card).1 = .synonym)
      (hlocation : card.location = [])

theorem classify_unknown {card : Card} (hoperation : card.operation ≠ [])
    (hmnemonic : StatementKind.mnemonics.lookup card.operation.capitals = none) :
    (Statement.classify card).1 = .remark ∨
      Statement.classify card = (.instruction, card.operation.capitals) := by
  unfold Statement.classify
  dsimp only
  split
  · exact Or.inl rfl
  · rw [if_neg (by simpa using Text.capitals_ne_nil hoperation), StatementKind.ofMnemonic,
      hmnemonic]
    exact Or.inr rfl

end Card

namespace FirstPass

variable {pass : FirstPass} {card : Card}

theorem incoming_idle_of_ended (h : pass.ended = true) : (pass.incoming card).Idle := by
  refine Or.inr (Or.inr (Or.inr ?_))
  rw [incoming_kind, kindOf, if_pos h]

theorem statementOf_of_not_ended (h : pass.ended = false) :
    pass.statementOf card = Statement.ofCard card := by
  apply if_neg
  intro hended
  rw [h] at hended
  cases hended.1

theorem incoming_idle (h : card.Inert) : (pass.incoming card).Idle := by
  cases hended : pass.ended with
  | true => exact incoming_idle_of_ended hended
  | false =>
      have hkind : (pass.incoming card).kind = (Statement.classify card).1 := by
        rw [incoming_kind, kindOf, hended]
        rfl
      cases h with
      | remark h => exact Or.inr (Or.inr (Or.inr (hkind.trans h)))
      | heading h => exact Or.inr (Or.inl (hkind.trans h))
      | library h => exact Or.inr (Or.inr (Or.inl (hkind.trans h)))
      | unknown hoperation hmnemonic horder =>
          rcases Card.classify_unknown hoperation hmnemonic with hcard | hcard
          · exact Or.inr (Or.inr (Or.inr (hkind.trans hcard)))
          · left
            apply Bool.of_not_eq_false
            intro hfree
            rcases (incoming_checked pass card).order
              (hkind.trans (congrArg Prod.fst hcard)) hfree with ⟨order, hfound, _⟩
            have hspelling : (pass.incoming card).mnemonic = (Statement.classify card).2 :=
              congrArg Statement.mnemonic (incoming_frame pass card)
            rw [hspelling, hcard, horder] at hfound
            cases hfound
      | unlabelled hlisted hlocation =>
          left
          unfold incoming
          rw [statementOf_of_not_ended hended]
          exact Statement.prepared_blocked hlisted hlocation

end FirstPass

theorem Options.lastPass_ended (options : Options) {cards : List Card}
    (h : ∃ card ∈ cards, (Statement.classify card).1 = .finish) :
    (options.lastPass cards).ended = true := by
  rcases h with ⟨card, hmem, hfinish⟩
  rcases FirstPass.history_cons (options.lastPass cards) card [] with
    ⟨entry, hentry, _, hbefore, _, _⟩
  have hhistory := options.history_append cards [card]
  rw [hentry] at hhistory
  rw [← hbefore]
  apply (FirstPass.history_ended hhistory).mpr
  right
  rw [← FirstPass.history_cards options.start cards] at hmem
  rcases List.mem_map.mp hmem with ⟨other, hother, rfl⟩
  exact ⟨other, hother, hfinish⟩

/-!
# Cards without their numbers

A card among others changes the numbers of those after it, so cards are compared
without numbers, texts and columns.
-/

namespace Card

def unplaced (card : Card) : Card :=
  card.renumbered fun _ => 0

theorem ofLine_unplaced (line : Text) (first second : Int) :
    (ofLine first line).unplaced = (ofLine second line).unplaced := by
  unfold ofLine ofTabbed
  dsimp only
  split
  · rfl
  · split
    · rfl
    · split
      · split <;> rfl
      · rfl

theorem ofLines_unplaced (lines : List Text) (first second : Int) :
    (ofLines first lines).map unplaced = (ofLines second lines).map unplaced := by
  induction lines generalizing first second with
  | nil => rfl
  | cons line rest ih =>
      rw [ofLines, ofLines, List.map_cons, List.map_cons, ih (first + 1) (second + 1),
        ofLine_unplaced line first second]

end Card

/-!
# Programs with one more card

Only one more statement without words tells the two programs apart.
-/

namespace Assembler

/-- The second assembler has the statement of `card` at `index`, and is otherwise as the first. -/
structure SameBut (asm other : Assembler) (index : Nat) (card : Card) : Prop where
  symbols : other.symbols = asm.symbols
  location : other.location = asm.location
  segments : other.segments = asm.segments
  inserted : ∃ st, other.statements[index]? = some st ∧ st.card = card ∧ st.words = some []
  words : (other.statements.eraseIdx index).map (fun st => (st.base, st.words)) =
    asm.statements.map fun st => (st.base, st.words)

end Assembler

namespace Options

variable (options : Options)

theorem finished_unplaced {cards others : List Card}
    (h : cards.map Card.unplaced = others.map Card.unplaced) :
    (options.finished cards).renumbered (fun _ => 0) =
      (options.finished others).renumbered fun _ => 0 := by
  rw [← finished_renumbered, ← finished_renumbered]
  exact congrArg options.finished h

theorem sameBut_of_idle {earlier later others : List Card} {card : Card}
    (hcards : later.map Card.unplaced = others.map Card.unplaced)
    (hidle : ((options.lastPass earlier).incoming card).Idle) :
    (options.finished (earlier ++ later)).SameBut
      (options.finished (earlier ++ card :: others)) earlier.length card := by
  have hcards : (earlier ++ others).map Card.unplaced = (earlier ++ later).map Card.unplaced := by
    rw [List.map_append, List.map_append, hcards]
  have hsame := options.finished_unplaced hcards
  rcases options.finished_insert earlier others hidle with
    ⟨before, after, hlength, hstatements, hfinished⟩
  rw [hfinished]
  constructor
  · show (options.finished (earlier ++ others)).symbols = _
    exact Assembler.symbols_of_renumbered hsame
  · show (options.finished (earlier ++ others)).location = _
    exact Assembler.location_of_renumbered hsame
  · rw [← Assembler.segments_of_renumbered hsame]
    unfold Assembler.segments
    rw [hstatements, List.flatMap_append, List.flatMap_append, List.flatMap_cons,
      Statement.wordless_placements (FirstPass.incoming_size _ _) (FirstPass.incoming_breaks _ _),
      List.nil_append]
  · refine ⟨((options.lastPass earlier).incoming card).wordless, ?_, ?_, rfl⟩
    · dsimp only
      rw [← hlength, List.getElem?_append_right (Nat.le_refl _), Nat.sub_self]
      rfl
    · exact FirstPass.incoming_card _ card
  · have herase : (before ++ ((options.lastPass earlier).incoming card).wordless ::
        after).eraseIdx earlier.length = before ++ after := by
      rw [← hlength, List.eraseIdx_append_of_length_le (Nat.le_refl _), Nat.sub_self]
      rfl
    rw [herase, ← hstatements]
    exact Assembler.statements_of_renumbered _ (fun _ => rfl) hsame

end Options

/-- An inert card, or any card after an end card, can stand between any two lines of a source. -/
theorem inert_card_inserted (options : Options) {source inserted text : Text}
    {earlier later : List Text} (hsource : Source.rawLines source = earlier ++ later)
    (hinserted : Source.rawLines inserted = earlier ++ text :: later)
    (hlength : text.length < Source.lineLimit)
    (hinert : (Card.ofLine (earlier.length + 1) text).Inert ∨
      ∃ card ∈ Card.ofLines 1 earlier, (Statement.classify card).1 = .finish) :
    if ∀ line ∈ earlier ++ later, line.length < Source.lineLimit then
      ∃ asm other, assembleSource options source = .ok asm ∧
        assembleSource options inserted = .ok other ∧
        asm.SameBut other earlier.length (Card.ofLine (earlier.length + 1) text)
    else
      assembleSource options source = .error .lineTooLong ∧
        assembleSource options inserted = .error .lineTooLong := by
  have hshort : (∀ line ∈ earlier ++ text :: later, line.length < Source.lineLimit) ↔
      ∀ line ∈ earlier ++ later, line.length < Source.lineLimit := by
    simp only [List.forall_mem_append, List.forall_mem_cons, hlength, true_and]
  rw [assembleSource_eq, assembleSource_eq, hsource, hinserted]
  split
  · rename_i h
    rw [if_pos (hshort.mpr h), Card.ofLines_append, Card.ofLines_append, Card.ofLines]
    refine ⟨_, _, rfl, rfl, ?_⟩
    have hnumber : 1 + (earlier.length : Int) = earlier.length + 1 := Int.add_comm _ _
    rw [hnumber]
    have hidle : ((options.lastPass (Card.ofLines 1 earlier)).incoming
        (Card.ofLine (earlier.length + 1) text)).Idle := by
      rcases hinert with hinert | hfinish
      · exact FirstPass.incoming_idle hinert
      · exact FirstPass.incoming_idle_of_ended (options.lastPass_ended hfinish)
    have hsame := options.sameBut_of_idle (Card.ofLines_unplaced later (earlier.length + 1)
      (earlier.length + 1 + 1)) hidle
    rw [Card.ofLines_length] at hsame
    exact hsame
  · rename_i h
    rw [if_neg (fun hall => h (hshort.mp hall))]
    exact ⟨rfl, rfl⟩

/-- A block without a location symbol between a block and a word that refers to it. -/
theorem inert_card_inserted_block :
    Source.rawLines (.ofString "A\tBSS\t2\nB\tPZE\tA\n") =
      [.ofString "A\tBSS\t2"] ++ [.ofString "B\tPZE\tA"] ∧
    Source.rawLines (.ofString "A\tBSS\t2\n\tBSS\t5\nB\tPZE\tA\n") =
      [.ofString "A\tBSS\t2"] ++ .ofString "\tBSS\t5" :: [.ofString "B\tPZE\tA"] ∧
    (Card.ofLine 2 (.ofString "\tBSS\t5")).Inert ∧
    ∃ asm other,
      assembleSource ⟨.zero, .absolute⟩ (.ofString "A\tBSS\t2\nB\tPZE\tA\n") = .ok asm ∧
      assembleSource ⟨.zero, .absolute⟩ (.ofString "A\tBSS\t2\n\tBSS\t5\nB\tPZE\tA\n") =
        .ok other ∧
      asm.SameBut other 1 (Card.ofLine 2 (.ofString "\tBSS\t5")) := by
  have hsource : Source.rawLines (.ofString "A\tBSS\t2\nB\tPZE\tA\n") =
      [.ofString "A\tBSS\t2"] ++ [.ofString "B\tPZE\tA"] := by decide
  have hinserted : Source.rawLines (.ofString "A\tBSS\t2\n\tBSS\t5\nB\tPZE\tA\n") =
      [.ofString "A\tBSS\t2"] ++ .ofString "\tBSS\t5" :: [.ofString "B\tPZE\tA"] := by decide
  have hinert : (Card.ofLine 2 (.ofString "\tBSS\t5")).Inert :=
    .unlabelled (Or.inl (by decide)) (by decide)
  have hsame := inert_card_inserted ⟨.zero, .absolute⟩ hsource hinserted (by decide)
    (Or.inl hinert)
  rw [if_pos (by decide)] at hsame
  exact ⟨hsource, hinserted, hinert, hsame⟩

end Ibm704

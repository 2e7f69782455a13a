import Ibm704.Proofs.Assembly
import Ibm704.Segment

/-!
# Where things stand on a card

The number of a card and the columns of its parts go into reports and nowhere
else.  A card is renumbered by giving it another number and forgetting its text
and its columns, and what is made of it is renumbered in the same way.  Every
step of the assembler commutes with that, so cards that differ only in where
things stand on them leave the same words, symbols and segments, and reports that
differ only in their positions.
-/

namespace Ibm704

/-!
# Renumbering

A card is renumbered by changing its number; its text and its columns are left out, so
that cards of different layouts can be compared.
-/

namespace Card

def renumbered (line : Int → Int) (card : Card) : Card :=
  { card with
    number := line card.number, text := [], locationColumn := 0, operationColumn := 0,
    fieldColumn := 0 }

end Card

def CardPosition.renumbered (line : Int → Int) (position : CardPosition) : CardPosition :=
  ⟨line position.line, 0⟩

def Report.renumbered (line : Int → Int) (report : Report) : Report :=
  { report with position := report.position.renumbered line }

namespace Statement

def renumbered (line : Int → Int) (st : Statement) : Statement :=
  { st with
    card := st.card.renumbered line, reports := st.reports.map (Report.renumbered line) }

def Resolved.renumbered (line : Int → Int) (r : Resolved) : Resolved :=
  { r with statement := r.statement.renumbered line }

end Statement

namespace FirstPass

def renumbered (line : Int → Int) (pass : FirstPass) : FirstPass :=
  { pass with current := pass.current.map (CardPosition.renumbered line) }

def Entry.renumbered (line : Int → Int) (entry : Entry) : Entry :=
  { entry with
    card := entry.card.renumbered line, statement := entry.statement.renumbered line }

end FirstPass

def SecondPass.renumbered (line : Int → Int) (pass : SecondPass) : SecondPass :=
  { pass with current := pass.current.map (CardPosition.renumbered line) }

def Assembler.renumbered (line : Int → Int) (asm : Assembler) : Assembler :=
  { asm with statements := asm.statements.map (Statement.renumbered line) }

/-!
# Statements

Everything that is done with one statement commutes with renumbering.
-/

namespace Statement

variable (line : Int → Int) (st : Statement)

theorem report_renumbered (severity : Severity) (column : Nat) (problem : Problem) :
    (st.report severity column problem).renumbered line =
      (st.renumbered line).report severity 0 problem := by
  simp [report, renumbered, Report.renumbered, CardPosition.renumbered, Card.position, Card.renumbered]

theorem warn_renumbered (problem : Problem) :
    (st.warn problem).renumbered line = (st.renumbered line).warn problem :=
  report_renumbered line st _ _ _

theorem fail_renumbered (problem : Problem) :
    (st.fail problem).renumbered line = (st.renumbered line).fail problem :=
  report_renumbered line st _ _ _

theorem failAll_renumbered (problems : List Problem) :
    (st.failAll problems).renumbered line = (st.renumbered line).failAll problems := by
  simp [failAll, renumbered, Report.renumbered, CardPosition.renumbered, Card.position, Card.renumbered]

theorem block_renumbered (column : Nat) (problem : Problem) :
    (st.block column problem).renumbered line = (st.renumbered line).block 0 problem := by
  simp [block, report, renumbered, Report.renumbered, CardPosition.renumbered, Card.position, Card.renumbered]

theorem takeCharacters_renumbered (count : Nat) (field : Text) :
    (st.takeCharacters count field).renumbered line =
      (st.renumbered line).takeCharacters count field := by
  unfold takeCharacters
  dsimp only
  rw [← failAll_renumbered]
  rfl

theorem parseCharacters_renumbered :
    st.parseCharacters.renumbered line = (st.renumbered line).parseCharacters := by
  have hfield : (st.renumbered line).card.field = st.card.field := rfl
  unfold parseCharacters
  rw [hfield]
  split
  · exact takeCharacters_renumbered line st _ _
  · split
    · exact takeCharacters_renumbered line st _ _
    · rw [takeCharacters_renumbered, fail_renumbered]

theorem parseLiterals_renumbered (read : Text → Except Literal.Error Word) :
    (st.parseLiterals read).renumbered line = (st.renumbered line).parseLiterals read := by
  unfold parseLiterals
  dsimp only
  have hoperand : (st.renumbered line).operand = st.operand := rfl
  rw [hoperand, ← failAll_renumbered]
  rfl

theorem parseExprs_renumbered :
    st.parseExprs.renumbered line = (st.renumbered line).parseExprs := by
  unfold parseExprs
  dsimp only
  have hoperand : (st.renumbered line).operand = st.operand := rfl
  rw [hoperand, ← failAll_renumbered]
  rfl

theorem parseField_renumbered :
    st.parseField.renumbered line = (st.renumbered line).parseField := by
  have hkind : (st.renumbered line).kind = st.kind := rfl
  unfold parseField
  rw [hkind]
  cases st.kind
  case characters => exact parseCharacters_renumbered line st
  case decimal | octal =>
    exact parseLiterals_renumbered line { st with kind := _, operand := _, comment := _ } _
  case remark | heading | library | full | absolute => rfl
  all_goals exact parseExprs_renumbered line { st with kind := _, operand := _, comment := _ }

theorem checkArity_renumbered (least most : Nat) :
    (st.checkArity least most).renumbered line = (st.renumbered line).checkArity least most := by
  have hexprs : (st.renumbered line).exprs = st.exprs := rfl
  unfold checkArity
  dsimp only
  rw [hexprs]
  split
  · rfl
  · rw [← warn_renumbered]
    rfl

theorem requireLocation_renumbered :
    st.requireLocation.renumbered line = (st.renumbered line).requireLocation := by
  have hlocation : (st.renumbered line).location = st.location := rfl
  unfold requireLocation
  rw [hlocation]
  split
  · exact block_renumbered line st _ _
  · rfl

theorem findOrder_renumbered :
    st.findOrder.renumbered line = (st.renumbered line).findOrder := by
  have hmnemonic : (st.renumbered line).mnemonic = st.mnemonic := rfl
  unfold findOrder
  rw [hmnemonic]
  split
  · rfl
  · exact block_renumbered line st _ _

theorem dropDecrement_renumbered :
    st.dropDecrement.renumbered line = (st.renumbered line).dropDecrement := by
  have hkept : (st.renumbered line).order = st.order ∧ (st.renumbered line).blocked = st.blocked ∧
      (st.renumbered line).exprs = st.exprs := ⟨rfl, rfl, rfl⟩
  unfold dropDecrement
  dsimp only
  rw [hkept.1, hkept.2.1, hkept.2.2]
  split
  · rw [← warn_renumbered]
    rfl
  · rfl

theorem check_renumbered : st.check.renumbered line = (st.renumbered line).check := by
  have hkind : (st.renumbered line).kind = st.kind := rfl
  unfold check
  rw [hkind]
  cases st.kind
  case instruction =>
    show ((st.findOrder.checkArity 1 3).dropDecrement).renumbered line = _
    rw [dropDecrement_renumbered, checkArity_renumbered, findOrder_renumbered]
  case blockStart | blockEnd | equate | synonym =>
    show ((st.checkArity 1 1).requireLocation).renumbered line = _
    rw [requireLocation_renumbered, checkArity_renumbered]
  case origin | anchor | finish | repetition => exact checkArity_renumbered line st _ _
  all_goals rfl

theorem prepared_renumbered : st.prepared.renumbered line = (st.renumbered line).prepared := by
  unfold prepared
  rw [check_renumbered]
  have hfield := parseField_renumbered line { st with phase := .parsed }
  exact congrArg (fun parsed : Statement => check { parsed with phase := .validated }) hfield

section

variable (position : CardPosition) (here : Address) (scope : Scope)

theorem resolve_renumbered (e : Expr) :
    (st.resolve (some position) here scope e).renumbered line =
      (st.renumbered line).resolve (some (position.renumbered line)) here scope e := by
  unfold resolve
  split
  · rfl
  · rename_i error _ _
    cases error <;>
      simp [Resolved.renumbered, renumbered, failAt, failurePosition, lookupPosition,
        Report.renumbered, CardPosition.renumbered, Card.operandPosition, Card.position,
        Card.renumbered]

theorem resolveAll_renumbered (exprs : List Expr) :
    (st.renumbered line).resolveAll (some (position.renumbered line)) here scope exprs =
      { st.resolveAll (some position) here scope exprs with
        statement :=
          (st.resolveAll (some position) here scope exprs).statement.renumbered line } := by
  induction exprs generalizing st scope with
  | nil => rfl
  | cons e rest ih =>
      have hrest := ih (st.resolve (some position) here scope e).statement
        (st.resolve (some position) here scope e).scope
      simp only [resolveAll, ← resolve_renumbered, Resolved.renumbered, hrest]
      rfl

end

end Statement

/-!
# The first pass

Each card and its renumbered copy become a statement and its renumbered copy, and
leave the same state.  While they are at work, the position in the state is renumbered
too.
-/

namespace FirstPass

variable (line : Int → Int) (pass : FirstPass)

theorem statementOf_renumbered (card : Card) :
    (pass.statementOf card).renumbered line = pass.statementOf (card.renumbered line) := by
  unfold statementOf
  dsimp only
  have hkind : (Statement.ofCard (card.renumbered line)).kind = (Statement.ofCard card).kind := rfl
  rw [hkind]
  split
  · have hreport := Statement.report_renumbered line (Statement.ofCard card) .warning
      card.operationColumn .afterEnd
    exact congrArg (fun st : Statement => { st with kind := StatementKind.remark }) hreport
  · rfl

theorem incoming_renumbered (card : Card) :
    (pass.incoming card).renumbered line = pass.incoming (card.renumbered line) := by
  have hprepared := Statement.prepared_renumbered line (pass.statementOf card)
  rw [statementOf_renumbered] at hprepared
  exact congrArg (fun st : Statement =>
    { st with phase := Phase.allocated, base := pass.location, format := pass.format }) hprepared

section

variable {pass} {position : CardPosition} (hcurrent : pass.current = some position)
include hcurrent

theorem operand_renumbered (st : Statement) (index : Nat) :
    (pass.renumbered line).operand (st.renumbered line) index =
      (pass.operand st index).map (Statement.Resolved.renumbered line) := by
  have hat : (st.renumbered line).operandAt index = st.operandAt index := rfl
  unfold operand renumbered
  rw [hat, hcurrent]
  cases st.operandAt index with
  | error fault => rfl
  | ok e => exact congrArg Except.ok (Statement.resolve_renumbered line st position _ _ e).symm

theorem reserveBlock_renumbered (st : Statement) (binding : Binding) :
    (pass.renumbered line).reserveBlock (st.renumbered line) binding =
      (pass.reserveBlock st binding).map (Prod.map (renumbered line) (Statement.renumbered line)) := by
  unfold reserveBlock
  rw [operand_renumbered line hcurrent]
  cases pass.operand st 0 <;> rfl

theorem equate_renumbered (st : Statement) :
    (pass.renumbered line).equate (st.renumbered line) =
      (pass.equate st).map (Prod.map (renumbered line) (Statement.renumbered line)) := by
  unfold equate
  rw [operand_renumbered line hcurrent]
  cases pass.operand st 0 with
  | error fault => rfl
  | ok r =>
      simp only [Except.map, Statement.Resolved.renumbered]
      cases r.value <;> rfl

theorem setOrigin_renumbered (st : Statement) :
    (pass.renumbered line).setOrigin (st.renumbered line) =
      (pass.setOrigin st).map (Prod.map (renumbered line) (Statement.renumbered line)) := by
  unfold setOrigin
  rw [operand_renumbered line hcurrent]
  cases pass.operand st 0 <;> rfl

theorem setAnchor_renumbered (st : Statement) :
    (pass.renumbered line).setAnchor (st.renumbered line) =
      (pass.setAnchor st).map (Prod.map (renumbered line) (Statement.renumbered line)) := by
  unfold setAnchor
  rw [operand_renumbered line hcurrent]
  cases pass.operand st 0 <;> rfl

theorem repeatWords_renumbered (st : Statement) :
    (pass.renumbered line).repeatWords (st.renumbered line) =
      (pass.repeatWords st).map (Prod.map (renumbered line) (Statement.renumbered line)) := by
  unfold repeatWords
  rw [operand_renumbered line hcurrent]
  cases pass.operand st 0 with
  | error fault => rfl
  | ok words =>
      simp only [Except.map, bind, Except.bind, Statement.Resolved.renumbered]
      have htimes := @operand_renumbered line { pass with scope := words.scope } position hcurrent
        words.statement 1
      show (operand (renumbered line { pass with scope := words.scope }) _ 1).bind _ = _
      rw [htimes]
      cases operand { pass with scope := words.scope } words.statement 1 <;> rfl

theorem place_renumbered (st : Statement) :
    (pass.renumbered line).place (st.renumbered line) =
      (pass.place st).map (Prod.map (renumbered line) (Statement.renumbered line)) := by
  have hkind : (st.renumbered line).kind = st.kind := rfl
  unfold place
  rw [hkind]
  cases st.kind
  case blockStart | blockEnd => exact reserveBlock_renumbered line hcurrent st _
  case equate | synonym => exact equate_renumbered line hcurrent st
  case origin => exact setOrigin_renumbered line hcurrent st
  case anchor => exact setAnchor_renumbered line hcurrent st
  case repetition => exact repeatWords_renumbered line hcurrent st
  all_goals rfl

end

theorem enter_renumbered (card : Card) :
    pass.enter (card.renumbered line) =
      (pass.enter card).map (Prod.map id (Statement.renumbered line)) := by
  rw [enter_eq, enter_eq, ← incoming_renumbered]
  have hblocked : ((pass.incoming card).renumbered line).blocked =
      (pass.incoming card).blocked := rfl
  rw [hblocked]
  split
  · rfl
  · have hcurrent : (pass.takeUp card).current = some card.operandPosition := rfl
    have hplace := place_renumbered line hcurrent (pass.incoming card)
    show ((renumbered line (pass.takeUp card)).place _).map _ = _
    rw [hplace]
    cases (pass.takeUp card).place (pass.incoming card) <;> rfl

theorem history_renumbered (cards : List Card) :
    pass.history (cards.map (Card.renumbered line)) =
      (pass.history cards).map (Entry.renumbered line) := by
  induction cards generalizing pass with
  | nil => rfl
  | cons card rest ih =>
      simp only [List.map_cons, history]
      rw [enter_renumbered]
      cases pass.enter card with
      | error fault => rfl
      | ok result =>
          simp only [Except.map, Prod.map, ih, List.map_cons]
          rfl

theorem afterAll_renumbered (entries : List Entry) :
    pass.afterAll (entries.map (Entry.renumbered line)) = pass.afterAll entries := by
  induction entries generalizing pass with
  | nil => rfl
  | cons entry rest ih => exact ih entry.after

end FirstPass

/-!
# The second pass

Words come from operands and data, which renumbering keeps.
-/

namespace SecondPass

variable (line : Int → Int) (pass : SecondPass)

section

variable {pass} {position : CardPosition} (hcurrent : pass.current = some position)
include hcurrent

theorem operandWord_renumbered (st : Statement) (template : Word) (most : Nat) :
    (pass.renumbered line).operandWord (st.renumbered line) template most =
      (pass.operandWord st template most).map
        (Prod.map id (Prod.map (Statement.renumbered line) id)) := by
  have hat : (st.renumbered line).operandAt 0 = st.operandAt 0 := rfl
  unfold operandWord renumbered
  rw [hat, hcurrent]
  cases st.operandAt 0 with
  | error fault => rfl
  | ok e =>
      simp only [bind, Except.bind, pure, Except.pure, Except.map]
      have hall := Statement.resolveAll_renumbered line st position st.base pass.scope
        (st.exprs.take most)
      exact congrArg (fun all : Statement.ResolvedList =>
        Except.ok ([orderWord template all.numbers], all.statement, all.scope)) hall

theorem wordsOf_renumbered (st : Statement) :
    (pass.renumbered line).wordsOf (st.renumbered line) =
      (pass.wordsOf st).map (Prod.map id (Prod.map (Statement.renumbered line) id)) := by
  have hkind : (st.renumbered line).kind = st.kind := rfl
  unfold wordsOf
  rw [hkind]
  cases st.kind
  case instruction | finish => exact operandWord_renumbered line hcurrent st _ _
  case repetition =>
    have hcopies : (pass.renumbered line).copies (st.renumbered line) = pass.copies st := rfl
    show ((pass.renumbered line).copies (st.renumbered line)).map _ = _
    rw [hcopies]
    cases pass.copies st <;> rfl
  all_goals rfl

theorem assemble_renumbered {st : Statement} (h : st.phase = .allocated) :
    (pass.renumbered line).assemble (st.renumbered line) =
      (pass.assemble st).map (Prod.map (renumbered line) (Statement.renumbered line)) := by
  have hphase : (st.renumbered line).phase = .allocated := h
  have hblocked : (st.renumbered line).blocked = st.blocked := rfl
  rw [assemble_eq (pass.renumbered line) hphase, assemble_eq pass h, hblocked]
  split
  · rfl
  · have hwords := wordsOf_renumbered line hcurrent { st with phase := .assembled }
    show wordsOf (pass.renumbered line) (Statement.renumbered line { st with phase := .assembled }) >>= _ = _
    rw [hwords]
    cases pass.wordsOf { st with phase := .assembled } <;> rfl

end

theorem assembleAll_renumbered {sts : List Statement} (h : ∀ st ∈ sts, st.Ready) :
    (pass.renumbered line).assembleAll (sts.map (Statement.renumbered line)) =
      { pass.assembleAll sts with
        statements := (pass.assembleAll sts).statements.map (Statement.renumbered line) } := by
  induction sts generalizing pass with
  | nil => rfl
  | cons st rest ih =>
      have hready := h st List.mem_cons_self
      rcases assemble_assembled (pass.takeUp_atWork st) hready with ⟨⟨next, st'⟩, hassemble, _⟩
      have hcurrent : (pass.takeUp st).current = some st.card.operandPosition := rfl
      have hfirst : ((pass.renumbered line).takeUp (st.renumbered line)).assemble
          (st.renumbered line) = _ :=
        assemble_renumbered line hcurrent hready.phase
      rw [hassemble] at hfirst
      have hrest := ih next fun other hmem => h other (List.mem_cons_of_mem st hmem)
      rw [List.map_cons, assembleAll_cons hassemble, assembleAll_cons hfirst, hrest]
      rfl

end SecondPass

/-!
# Whole programs

What a program leaves is a function of its cards, and it is stated as one here.
-/

namespace Options

def outcome (options : Options) (cards : List Card) : SecondPass.Outcome :=
  SecondPass.assembleAll ⟨(options.lastPass cards).scope, ∅, none⟩
    ((options.history cards).map FirstPass.Entry.statement)

def finished (options : Options) (cards : List Card) : Assembler :=
  { first := { options.lastPass cards with scope := (options.outcome cards).pass.scope }
    words := (options.outcome cards).pass.words
    statements := (options.outcome cards).statements }

theorem ready (options : Options) (cards : List Card) :
    ∀ st ∈ (options.history cards).map FirstPass.Entry.statement, st.Ready := by
  intro st hmem
  rcases List.mem_map.mp hmem with ⟨entry, hentry, rfl⟩
  exact FirstPass.Entry.Placed.ready (FirstPass.history_placed entry hentry)

theorem outcome_fault (options : Options) (cards : List Card) :
    (options.outcome cards).fault = none ∧ (options.outcome cards).pass.current = none := by
  rcases SecondPass.assembleAll_run ⟨(options.lastPass cards).scope, ∅, none⟩
    (options.ready cards) with ⟨last, sts, hall, _⟩
  unfold outcome
  rw [hall]
  exact ⟨rfl, rfl⟩

theorem assembleCards_eq (options : Options) (cards : List Card) :
    assembleCards options cards = .ok (options.finished cards) := by
  apply assembleCards_of_finish
  rcases options.outcome_fault cards with ⟨hfault, hnone⟩
  have hcurrent := options.lastPass_current cards
  have hall : (options.entered cards).secondPass.assembleAll (options.entered cards).statements =
      options.outcome cards := by
    rw [outcome, ← hcurrent]
    rfl
  rw [Assembler.finish, hall, hfault, hnone, ← hcurrent]
  rfl

theorem history_renumbered (line : Int → Int) (options : Options) (cards : List Card) :
    options.history (cards.map (Card.renumbered line)) =
      (options.history cards).map (FirstPass.Entry.renumbered line) :=
  FirstPass.history_renumbered line options.start cards

theorem lastPass_renumbered (line : Int → Int) (options : Options) (cards : List Card) :
    options.lastPass (cards.map (Card.renumbered line)) = options.lastPass cards := by
  unfold lastPass
  rw [history_renumbered, FirstPass.afterAll_renumbered]

theorem outcome_renumbered (line : Int → Int) (options : Options) (cards : List Card) :
    options.outcome (cards.map (Card.renumbered line)) =
      { options.outcome cards with
        statements := (options.outcome cards).statements.map (Statement.renumbered line) } := by
  have hstatements : (options.history (cards.map (Card.renumbered line))).map
      FirstPass.Entry.statement =
        ((options.history cards).map FirstPass.Entry.statement).map
          (Statement.renumbered line) := by
    rw [history_renumbered, List.map_map, List.map_map]
    rfl
  unfold outcome
  rw [lastPass_renumbered, hstatements]
  exact SecondPass.assembleAll_renumbered line ⟨_, ∅, none⟩ (options.ready cards)

theorem finished_renumbered (line : Int → Int) (options : Options) (cards : List Card) :
    options.finished (cards.map (Card.renumbered line)) =
      (options.finished cards).renumbered line := by
  unfold finished
  rw [lastPass_renumbered, outcome_renumbered]
  rfl

end Options

/-!
# What does not depend on positions

Programs with the same renumbered cards agree in symbols, words and segments, and in
their reports up to positions.
-/

namespace Assembler

section

variable (line : Int → Int) (asm : Assembler)

theorem segments_renumbered : (asm.renumbered line).segments = asm.segments := by
  unfold segments renumbered
  rw [List.flatMap_map]
  rfl

theorem reports_renumbered :
    (asm.renumbered line).reports = asm.reports.map (Report.renumbered line) := by
  unfold reports renumbered
  rw [List.flatMap_map, List.map_flatMap]
  rfl

theorem statements_renumbered {α : Type} (part : Statement → α)
    (hpart : ∀ st : Statement, part (st.renumbered line) = part st) :
    (asm.renumbered line).statements.map part = asm.statements.map part := by
  unfold renumbered
  rw [List.map_map]
  exact List.map_congr_left fun st _ => hpart st

end

variable {line : Int → Int} {asm other : Assembler}

theorem symbols_of_renumbered (h : other.renumbered line = asm.renumbered line) :
    other.symbols = asm.symbols := by
  show (other.renumbered line).symbols = (asm.renumbered line).symbols
  rw [h]

theorem location_of_renumbered (h : other.renumbered line = asm.renumbered line) :
    other.location = asm.location := by
  show (other.renumbered line).location = (asm.renumbered line).location
  rw [h]

theorem segments_of_renumbered (h : other.renumbered line = asm.renumbered line) :
    other.segments = asm.segments := by
  rw [← segments_renumbered line other, h, segments_renumbered]

theorem statements_of_renumbered {α : Type} (part : Statement → α)
    (hpart : ∀ st : Statement, part (st.renumbered line) = part st)
    (h : other.renumbered line = asm.renumbered line) :
    other.statements.map part = asm.statements.map part := by
  rw [← statements_renumbered line other part hpart, h, statements_renumbered line asm part hpart]

theorem reports_of_renumbered {α : Type} (part : Report → α)
    (hpart : ∀ report : Report, part (report.renumbered line) = part report)
    (h : other.renumbered line = asm.renumbered line) :
    other.reports.map part = asm.reports.map part := by
  have hreports : ∀ asm : Assembler,
      (asm.renumbered line).reports.map part = asm.reports.map part := by
    intro asm
    rw [reports_renumbered, List.map_map]
    exact List.map_congr_left fun report _ => hpart report
  rw [← hreports other, h, hreports asm]

end Assembler

end Ibm704

import Ibm704.Proofs.Reports

/-!
# Positions of reports

A statement is reported for problems of its own card only, whichever pass finds
them.  A symbol without a definition is reported at the operand that the pass has at
work, and that is the operand of the statement itself from when it is taken up until
it is set down.  So a report is known from the card and the problem: it names the
number of the card and the part of it in which the problem lies, and the problem
decides whether it is a warning.  Cards are numbered in their order, and so are the
reports on all of them.
-/

namespace Ibm704

/-!
# Reports on a card

The reports of a finished statement are on its card: those of the card by itself and
those of both passes.
-/

namespace Problem

theorem severity_eq_warning_iff (problem : Problem) :
    problem.severity = .warning ↔
      (∃ least most received, problem = .arity least most received) ∨ problem = .afterEnd := by
  cases problem <;> simp [severity]

end Problem

namespace Statement

def ReportsCard (st : Statement) (reports : List Report) : Prop :=
  ∀ report ∈ reports, report = st.card.reportOf report.problem

theorem failures_reportsCard (st : Statement) (evaluates : Prop) [Decidable evaluates]
    (outcomes : List (Except Expr.EvalError Int64)) :
    st.ReportsCard (if evaluates then st.failures outcomes else []) := by
  intro report hmem
  split at hmem
  · rcases List.mem_filterMap.mp hmem with ⟨outcome, _, hreport⟩
    rcases Option.map_eq_some_iff.mp hreport with ⟨error, _, rfl⟩
    cases error <;> rfl
  · cases hmem

theorem OwnReports.reportsCard {st : Statement} (h : st.OwnReports) :
    st.ReportsCard st.reports := by
  intro report hmem
  rcases h report hmem with ⟨problem, _, rfl⟩
  rfl

end Statement

theorem Assembler.Follows.reportsCard {asm : Assembler} {entry : FirstPass.Entry} {st : Statement}
    (h : asm.Follows entry st) : st.ReportsCard st.reports := by
  rcases h.assembled with ⟨before, after, hassembled, _⟩
  have hcard : (entry.before.incoming entry.card).card = st.card :=
    (h.cardPart Statement.card (fun _ => rfl) fun _ => rfl).symm
  have hown : st.ReportsCard (entry.before.incoming entry.card).reports := by
    rw [Statement.ReportsCard, ← hcard]
    exact (FirstPass.incoming_ownReports entry.before entry.card).reportsCard
  intro report hmem
  rw [h.reports_by_pass hassembled] at hmem
  rcases List.mem_append.mp hmem with hmem | hmem
  · exact hown report hmem
  · rcases List.mem_append.mp hmem with hmem | hmem
    · exact st.failures_reportsCard _ _ report hmem
    · exact st.failures_reportsCard _ _ report hmem

/-!
# Numbers of cards

Cards of lines are numbered one after another, so the reports on all cards are in the
order of the cards.
-/

namespace Card

theorem ofLine_number (number : Int) (line : Text) : (ofLine number line).number = number := by
  unfold ofLine ofTabbed
  dsimp only
  split
  · rfl
  · split
    · rfl
    · split
      · split <;> rfl
      · rfl

theorem ofLines_numbers (number : Int) (lines : List Text) :
    (ofLines number lines).map Card.number =
      (List.range lines.length).map fun k : Nat => number + k := by
  induction lines generalizing number with
  | nil => rfl
  | cons line rest ih =>
      rw [ofLines, List.map_cons, ofLine_number, ih, List.length_cons, List.range_succ_eq_map,
        List.map_cons, List.map_map]
      congr 1
      · exact (Int.add_zero number).symm
      · apply List.map_congr_left
        intro k _
        show number + 1 + (k : Int) = number + ((k + 1 : Nat) : Int)
        omega

end Card

namespace Finished

variable {options : Options} {lines : List Text} {asm : Assembler}

theorem numbers (h : Finished options (Card.ofLines 1 lines) asm) :
    asm.statements.map (fun st => st.card.number) =
      (List.range lines.length).map fun k : Nat => 1 + (k : Int) := by
  rw [← Card.ofLines_numbers, ← h.cards, List.map_map]
  rfl

theorem number_at (h : Finished options (Card.ofLines 1 lines) asm) {k : Nat} {st : Statement}
    (hst : asm.statements[k]? = some st) : st.card.number = k + 1 := by
  have hnumber := congrArg (fun numbers => numbers[k]?) h.numbers
  simp only [List.getElem?_map, hst, Option.map_some] at hnumber
  rcases Option.map_eq_some_iff.mp hnumber.symm with ⟨index, hindex, hsame⟩
  rcases List.getElem?_eq_some_iff.mp hindex with ⟨hless, hrange⟩
  rw [List.getElem_range] at hrange
  rw [← hsame, ← hrange, Int.add_comm]

theorem reportsCard {cards : List Card} (h : Finished options cards asm) :
    ∀ st ∈ asm.statements, st.ReportsCard st.reports := by
  intro st hmem
  rcases h.entry_of_mem hmem with ⟨entry, _, _, hfollows⟩
  exact hfollows.reportsCard

theorem numbers_ascend (h : Finished options (Card.ofLines 1 lines) asm) :
    asm.statements.Pairwise fun st next => st.card.number < next.card.number := by
  have hascend : (asm.statements.map fun st => st.card.number).Pairwise (· < ·) := by
    rw [h.numbers, List.pairwise_map]
    exact List.pairwise_lt_range.imp fun hless => by omega
  exact List.pairwise_map.mp hascend

theorem reports_ordered (h : Finished options (Card.ofLines 1 lines) asm) :
    asm.reports.Pairwise fun report next => report.position.line ≤ next.position.line := by
  have hline : ∀ st ∈ asm.statements, ∀ report ∈ st.reports,
      report.position.line = st.card.number := by
    intro st hst report hreport
    rw [h.reportsCard st hst report hreport]
    rfl
  rw [Assembler.reports, List.pairwise_flatMap]
  constructor
  · intro st hst
    apply List.pairwise_of_forall_mem_list
    intro report hreport next hnext
    exact Int.le_of_eq ((hline st hst report hreport).trans (hline st hst next hnext).symm)
  · refine h.numbers_ascend.imp_of_mem ?_
    intro st next hst hnext hless report hreport other hother
    rw [hline st hst report hreport, hline next hnext other hother]
    exact Int.le_of_lt hless

end Finished

/-- A source that can be read has one statement for each line.  Both passes have each statement at work
while they look up its symbols, and none after the last.  Every report of a statement names its line and
the part of the card in which the problem lies, it is a warning if the number of operands was wrong or
the card came after the end card and else an error, and all reports together are in the order of the
lines. -/
theorem reports_name_their_cards (options : Options) (source : Text) (lines : List Text)
    (hlines : Source.lines? source = some lines) :
    ∃ asm, assembleSource options source = .ok asm ∧ asm.statements.length = lines.length ∧
      (∀ (k : Nat) entry, (options.history (Card.ofLines 1 lines))[k]? = some entry →
        ∃ st, asm.statements[k]? = some st ∧
          entry.WorkedOn (options.secondPassAt (Card.ofLines 1 lines) k)
            (options.secondPassAt (Card.ofLines 1 lines) (k + 1)) st) ∧
      asm.lookupPosition = .none ∧
      (∀ (k : Nat) st, asm.statements[k]? = some st → ∀ report ∈ st.reports,
        report.position.line = (k : Int) + 1 ∧ report.position.column = report.problem.column st.card ∧
        (report.severity = .warning ↔
          (∃ least most received, report.problem = .arity least most received) ∨
            report.problem = .afterEnd)) ∧
      asm.reports.Pairwise fun report next => report.position.line ≤ next.position.line := by
  rcases options.entered_finish (Card.ofLines 1 lines) with ⟨asm, hfinish, hfinished⟩
  refine ⟨asm, assembleSource_of_finish hlines hfinish, ?_,
    fun _ _ hentry => Options.workedOn hfinish hentry, ?_, ?_, hfinished.reports_ordered⟩
  · simpa using congrArg List.length hfinished.numbers
  · have hcurrent := options.lastPass_current (Card.ofLines 1 lines)
    rw [Assembler.lookupPosition, hfinished.first, hcurrent]
    rfl
  · intro k st hst report hmem
    have hreport := hfinished.reportsCard st (List.mem_of_getElem? hst) report hmem
    rw [← report.problem.severity_eq_warning_iff, ← hfinished.number_at hst]
    rw [hreport]
    exact ⟨rfl, rfl, Iff.rfl⟩

/-- A symbol that each pass misses, a quotient that fails, a missing location symbol, a missing operand,
and a card after the end card. -/
theorem reports_name_their_cards_of_both_passes :
    let options : Options := ⟨.zero, .absolute⟩
    let source : Text :=
      .ofString "A\tCLA\tB\n\tBSS\tB\nLONG\tBSS\tC\n\tREP\t1/0\n\tEND\tA\n\tCLA\tB"
    let lines : List Text := [.ofString "A\tCLA\tB", .ofString "\tBSS\tB",
      .ofString "LONG\tBSS\tC", .ofString "\tREP\t1/0", .ofString "\tEND\tA", .ofString "\tCLA\tB"]
    Source.lines? source = some lines ∧
      ∃ asm, assembleSource options source = .ok asm ∧ asm.statements.length = 6 ∧
        (∀ (k : Nat) entry, (options.history (Card.ofLines 1 lines))[k]? = some entry →
          ∃ st, asm.statements[k]? = some st ∧
            entry.WorkedOn (options.secondPassAt (Card.ofLines 1 lines) k)
              (options.secondPassAt (Card.ofLines 1 lines) (k + 1)) st) ∧
        asm.lookupPosition = .none ∧
        (∀ (k : Nat) st, asm.statements[k]? = some st → ∀ report ∈ st.reports,
          report.position.line = (k : Int) + 1 ∧
            report.position.column = report.problem.column st.card) ∧
        asm.reports =
          [⟨.error, ⟨1, 7⟩, .undefinedSymbol (.ofString "B")⟩,
            ⟨.error, ⟨2, 1⟩, .missingLocation (.ofString "BSS")⟩,
            ⟨.error, ⟨3, 10⟩, .undefinedSymbol (.ofString "C")⟩,
            ⟨.warning, ⟨4, 6⟩, .arity 2 2 1⟩, ⟨.error, ⟨4, 6⟩, .divideByZero⟩,
            ⟨.warning, ⟨6, 2⟩, .afterEnd⟩] := by
  intro options source lines
  have hlines : Source.lines? source = some lines := by decide
  rcases reports_name_their_cards options source lines hlines with
    ⟨asm, hsource, hlength, hworked, hdone, hreports, _⟩
  have hall : (assembleSource options source).toOption.map Assembler.reports =
      some [⟨.error, ⟨1, 7⟩, .undefinedSymbol (.ofString "B")⟩,
        ⟨.error, ⟨2, 1⟩, .missingLocation (.ofString "BSS")⟩,
        ⟨.error, ⟨3, 10⟩, .undefinedSymbol (.ofString "C")⟩,
        ⟨.warning, ⟨4, 6⟩, .arity 2 2 1⟩, ⟨.error, ⟨4, 6⟩, .divideByZero⟩,
        ⟨.warning, ⟨6, 2⟩, .afterEnd⟩] := by
    decide +kernel
  rw [hsource] at hall
  refine ⟨hlines, asm, hsource, hlength, hworked, hdone, ?_, Option.some.inj hall⟩
  intro k st hst report hmem
  rcases hreports k st hst report hmem with ⟨hline, hcolumn, _⟩
  exact ⟨hline, hcolumn⟩

end Ibm704

import Ibm704.Proofs.Assembly

/-!
# Reports

A statement collects its reports in three phases: parsing and validation report
what is wrong with the card by itself, and each pass reports the operands that it
evaluated and that have no value.  So the reports of a finished statement are
those of its card, and after them one for each operand that failed.
-/

namespace Ibm704

namespace Problem

def evaluation : Problem → Bool
  | undefinedSymbol _ => true
  | divideByZero => true
  | _ => false

def severity : Problem → Severity
  | arity _ _ _ => .warning
  | afterEnd => .warning
  | _ => .error

def column (problem : Problem) (card : Card) : Nat :=
  match problem with
  | missingLocation _ => card.locationColumn
  | unknownOperation _ => card.operationColumn
  | afterEnd => card.operationColumn
  | _ => card.fieldColumn

end Problem

/-!
# Reports on a card by itself

Parsing and validation report problems in the part of the card where they lie.
-/

def Card.reportOf (card : Card) (problem : Problem) : Report :=
  ⟨problem.severity, card.position (problem.column card), problem⟩

/-- A report that the card causes before any operand is evaluated. -/
def Card.Causes (card : Card) (report : Report) : Prop :=
  ∃ problem, problem.evaluation = false ∧ report = card.reportOf problem

namespace Statement

def OwnReports (st : Statement) : Prop :=
  ∀ report ∈ st.reports, st.card.Causes report

namespace OwnReports

variable {st : Statement}

theorem report (h : st.OwnReports) (problem : Problem) (hown : problem.evaluation = false) :
    (st.report problem.severity (problem.column st.card) problem).OwnReports := by
  intro other hmem
  rcases List.mem_append.mp hmem with hold | hnew
  · exact h other hold
  · rw [List.mem_singleton.mp hnew]
    exact ⟨problem, hown, rfl⟩

theorem failAll (h : st.OwnReports) {problems : List Problem}
    (hown : ∀ problem ∈ problems, problem.evaluation = false ∧ problem.severity = .error ∧
      problem.column st.card = st.card.fieldColumn) :
    (st.failAll problems).OwnReports := by
  intro other hmem
  rcases List.mem_append.mp hmem with hold | hnew
  · exact h other hold
  · rcases List.mem_map.mp hnew with ⟨problem, hproblem, rfl⟩
    rcases hown problem hproblem with ⟨hcard, herror, hcolumn⟩
    rw [← herror, ← hcolumn]
    exact ⟨problem, hcard, rfl⟩

theorem takeCharacters (h : st.OwnReports) (count : Nat) (field : Text) :
    (st.takeCharacters count field).OwnReports := by
  apply failAll h
  intro problem hmem
  rcases List.mem_filterMap.mp hmem with ⟨group, _, hgroup⟩
  rcases Option.map_eq_some_iff.mp hgroup with ⟨c, _, rfl⟩
  exact ⟨rfl, rfl, rfl⟩

theorem parseCharacters (h : st.OwnReports) : st.parseCharacters.OwnReports := by
  unfold Statement.parseCharacters
  split
  · exact h.takeCharacters _ _
  · split
    · exact h.takeCharacters _ _
    · exact takeCharacters (h.report (.invalidCount _) rfl) _ _

theorem parseLiterals (h : st.OwnReports) (read : Text → Except Literal.Error Word) :
    (st.parseLiterals read).OwnReports := by
  apply failAll h
  intro problem hmem
  rcases List.mem_filterMap.mp hmem with ⟨literal, _, hliteral⟩
  unfold literalProblem? at hliteral
  split at hliteral <;> cases hliteral <;> exact ⟨rfl, rfl, rfl⟩

theorem parseExprs (h : st.OwnReports) : st.parseExprs.OwnReports := by
  apply failAll h
  intro problem hmem
  rcases List.mem_map.mp hmem with ⟨error, _, rfl⟩
  exact ⟨rfl, rfl, rfl⟩

theorem parseField (h : st.OwnReports) : st.parseField.OwnReports := by
  unfold Statement.parseField
  split
  · exact h.parseCharacters
  · exact h
  · dsimp only
    split
    · apply parseLiterals
      exact h
    · apply parseLiterals
      exact h
    · exact h
    · exact h
    · exact h
    · exact h
    · apply parseExprs
      exact h

theorem checkArity (h : st.OwnReports) (least most : Nat) :
    (st.checkArity least most).OwnReports := by
  unfold Statement.checkArity
  dsimp only
  split
  · exact h
  · exact h.report (.arity least most st.exprs.length) rfl

theorem requireLocation (h : st.OwnReports) : st.requireLocation.OwnReports := by
  unfold Statement.requireLocation
  split
  · exact h.report (.missingLocation st.mnemonic) rfl
  · exact h

theorem findOrder (h : st.OwnReports) : st.findOrder.OwnReports := by
  unfold Statement.findOrder
  split
  · exact h
  · exact h.report (.unknownOperation st.mnemonic) rfl

theorem dropDecrement (h : st.OwnReports) : st.dropDecrement.OwnReports := by
  unfold Statement.dropDecrement
  dsimp only
  split
  · exact h.report (.arity 1 2 st.exprs.length) rfl
  · exact h

theorem check (h : st.OwnReports) : st.check.OwnReports := by
  unfold Statement.check
  cases st.kind
  case instruction => exact (h.findOrder.checkArity 1 3).dropDecrement
  case blockStart | blockEnd | equate | synonym => exact (h.checkArity 1 1).requireLocation
  case origin | anchor | finish => exact h.checkArity 1 1
  case repetition => exact h.checkArity 2 2
  all_goals exact h

end OwnReports

end Statement

namespace FirstPass

theorem statementOf_ownReports (pass : FirstPass) (card : Card) :
    (pass.statementOf card).OwnReports := by
  have hfresh : (Statement.ofCard card).OwnReports := by
    intro report hmem
    cases hmem
  unfold statementOf
  dsimp only
  split
  · exact hfresh.report .afterEnd rfl
  · exact hfresh

theorem incoming_ownReports (pass : FirstPass) (card : Card) :
    (pass.incoming card).OwnReports := by
  have hparsed : (Statement.parseField
      { pass.statementOf card with phase := .parsed }).OwnReports := by
    apply Statement.OwnReports.parseField
    exact statementOf_ownReports pass card
  have hprepared : (pass.statementOf card).prepared.OwnReports := by
    apply Statement.OwnReports.check
    exact hparsed
  exact hprepared

/-!
# Reports on operands

Each pass adds reports on the operands that it evaluates.
-/

def failures (pass : FirstPass) (st : Statement) : List Report :=
  if st.blocked = false ∧ st.kind.waits = false then
    st.failures (pass.scope.evalAll pass.location st.exprs).1
  else
    []

theorem failures_of_no_operands {pass : FirstPass} {st : Statement} (h : st.exprs = []) :
    pass.failures st = [] := by
  unfold failures
  rw [h]
  split <;> rfl

theorem failures_of_free {pass : FirstPass} {st : Statement} (hfree : st.blocked = false)
    (hearly : st.kind.waits = false) :
    pass.failures st = st.failures (pass.scope.evalAll pass.location st.exprs).1 :=
  if_pos ⟨hfree, hearly⟩

theorem resolved_reports {pass : FirstPass} {st : Statement} {e : Expr}
    (hfree : st.blocked = false) (hearly : st.kind.waits = false) (hexprs : st.exprs = [e]) :
    (pass.resolved st e).statement.reports = st.reports ++ pass.failures st := by
  rw [failures_of_free hfree hearly, hexprs]
  exact Statement.resolve_reports st _ pass.location pass.scope e rfl

theorem Placed.reports {pass : FirstPass} {st : Statement} {result : FirstPass × Statement}
    (h : Placed pass st result) (hchecked : st.Checked) :
    result.2.reports = st.reports ++ pass.failures st := by
  have hnone : pass.failures st = [] → st.reports = st.reports ++ pass.failures st := by
    intro hfailures
    rw [hfailures, List.append_nil]
  have hwithout : st.kind.arity.2 = 0 → pass.failures st = [] := by
    intro harity
    have hmost := hchecked.most
    rw [harity] at hmost
    exact failures_of_no_operands (List.eq_nil_of_length_eq_zero (Nat.le_zero.mp hmost))
  have hlate : st.kind.waits = true → pass.failures st = [] := by
    intro hwaits
    exact if_neg (by simp [hwaits])
  cases h with
  | idle hkind =>
      rcases hkind with hblocked | hkind | hkind | hkind
      · exact hnone (if_neg (by simp [hblocked]))
      all_goals exact hnone (hwithout (by rw [hkind]; rfl))
  | words hfree hkind =>
      rcases hkind with ⟨hkind, _⟩ | ⟨hkind | hkind | hkind, _⟩
      · exact hnone (hlate (by rw [hkind]; rfl))
      all_goals exact hnone (hwithout (by rw [hkind]; rfl))
  | block hfree hexprs hkind =>
      rcases hkind with ⟨hkind, _⟩ | ⟨hkind, _⟩ <;>
        exact resolved_reports hfree (by rw [hkind]; rfl) hexprs
  | equated hfree hexprs hkind =>
      rcases hkind with hkind | hkind <;>
        exact resolved_reports hfree (by rw [hkind]; rfl) hexprs
  | unequated hfree hexprs hkind =>
      rcases hkind with hkind | hkind <;>
        exact resolved_reports hfree (by rw [hkind]; rfl) hexprs
  | origin hfree hexprs hkind => exact resolved_reports hfree (by rw [hkind]; rfl) hexprs
  | repetition hfree hexprs hkind hwords htimes =>
      rename_i e e' words times
      have hwork : st.AtWork (some st.card.operandPosition) := rfl
      have hboth := Statement.resolveAll_reports hwork pass.location pass.scope [e, e']
      rw [failures_of_free hfree (by rw [hkind]; rfl), hexprs, ← hboth, htimes, hwords]
      rfl
  | anchor hfree hexprs hkind => exact resolved_reports hfree (by rw [hkind]; rfl) hexprs
  | finish hfree hkind => exact hnone (hlate (by rw [hkind]; rfl))
  | format hfree hkind =>
      rcases hkind with ⟨hkind, _⟩ | ⟨hkind, _⟩ <;>
        exact hnone (hwithout (by rw [hkind]; rfl))

end FirstPass

namespace Assembler

variable {asm : Assembler} {entry : FirstPass.Entry} {st : Statement}

theorem waiting_outcomes {before after : SecondPass}
    (hgiven : SecondPass.Given before st st.emitted after.scope)
    (hleads : after.scope.LeadsTo asm.first.scope) (hfree : st.blocked = false)
    (hwaits : st.kind.waits = true) :
    (before.scope.evalAll st.base st.exprs).1 = st.exprs.map (asm.symbols.eval st.base) := by
  have hscope : after.scope = (before.scope.evalAll st.base st.exprs).2 := by
    cases hkind : st.kind <;> rw [hkind] at hwaits
    case instruction =>
      rcases hgiven.of_instruction hkind hfree with ⟨_, _, _, hscope⟩
      exact hscope
    case finish => exact (hgiven.of_finish hkind hfree).2
    all_goals cases hwaits
  rw [hscope] at hleads
  exact (Scope.evalAll_settles hleads).1

theorem Follows.reports_by_pass (h : asm.Follows entry st) {before after : SecondPass}
    (hassembled : SecondPass.Assembled before entry.statement (after, st)) :
    st.reports = (entry.before.incoming entry.card).reports ++
      (entry.before.failures st ++ before.failures st) := by
  have hfirst : entry.statement.reports = (entry.before.incoming entry.card).reports ++
      entry.before.failures st := by
    rw [h.cardPart entry.before.failures (fun _ => rfl) fun _ => rfl]
    exact FirstPass.Placed.reports h.placed (FirstPass.incoming_checked _ _)
  have hsecond : st.reports = entry.statement.reports ++ before.failures st := by
    rw [h.part before.failures fun _ => rfl]
    exact hassembled.reports
  rw [hsecond, hfirst, List.append_assoc]

theorem Follows.reports (h : asm.Follows entry st) (hfree : st.blocked = false) :
    st.reports = (entry.before.incoming entry.card).reports ++
      st.failures
        (if st.kind.waits then st.exprs.map (asm.symbols.eval st.base)
        else (entry.before.scope.evalAll entry.before.location st.exprs).1) := by
  rcases h.assembled with ⟨before, after, hassembled, hleads⟩
  rw [h.reports_by_pass hassembled]
  congr 1
  cases hwaits : st.kind.waits with
  | true =>
      have houtcomes := waiting_outcomes hassembled.given hleads hfree hwaits
      rw [FirstPass.failures, if_neg (by simp [hwaits]), SecondPass.failures,
        if_pos ⟨hfree, hwaits⟩, List.nil_append, if_pos rfl, houtcomes]
  | false =>
      rw [FirstPass.failures_of_free hfree hwaits, SecondPass.failures,
        if_neg (by simp [hwaits]), List.append_nil, if_neg Bool.false_ne_true]

end Assembler

end Ibm704

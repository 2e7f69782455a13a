import Ibm704.Proofs.FinalSymbols
import Ibm704.Proofs.Misses
import Ibm704.Proofs.UndefinedSymbols

/-!
# The anchor during an assembly

A program evaluates its operands in one order: those that decide about space card
by card, and after the last card those of the instructions.  Between them cards
define their location symbols.  So the final table is made of two kinds of
definitions, and those that come from lookups have consecutive addresses over both
passes, from the operand of the first anchor card on.
-/

namespace Ibm704

namespace Statement

def earlyOperands (st : Statement) : List Expr :=
  if st.blocked = false ∧ st.kind.waits = false then st.exprs else []

def lateOperands (st : Statement) : List Expr :=
  if st.blocked = false ∧ st.kind.waits = true then st.exprs else []

theorem earlyOperands_of_free {st : Statement} (hfree : st.blocked = false)
    (hearly : st.kind.waits = false) : st.earlyOperands = st.exprs :=
  if_pos ⟨hfree, hearly⟩

theorem Checked.earlyOperands_of_arity {st : Statement} (hchecked : st.Checked)
    (harity : st.kind.arity.2 = 0) : st.earlyOperands = [] := by
  have hmost := hchecked.most
  rw [harity] at hmost
  unfold earlyOperands
  rw [List.eq_nil_of_length_eq_zero (Nat.le_zero.mp hmost), ite_self]

end Statement

/-!
# One card

Operands are evaluated before the label is defined, so a card adds to the table first
what its operands missed and then its label, if that is new.
-/

namespace FirstPass

def evaluated (pass : FirstPass) (st : Statement) : Scope :=
  (pass.scope.evalAll pass.location st.earlyOperands).2

theorem evaluated_of_none {pass : FirstPass} {st : Statement} (h : st.earlyOperands = []) :
    pass.evaluated st = pass.scope := by
  rw [evaluated, h]
  rfl

theorem evaluated_of_single {pass : FirstPass} {st : Statement} {e : Expr}
    (hfree : st.blocked = false) (hearly : st.kind.waits = false) (hexprs : st.exprs = [e]) :
    pass.evaluated st = (pass.resolved st e).scope := by
  rw [evaluated, Statement.earlyOperands_of_free hfree hearly, hexprs]
  exact (Statement.resolve_scope st _ pass.location pass.scope e).symm

theorem evaluated_of_pair {pass : FirstPass} {st : Statement} {e e' : Expr}
    (hfree : st.blocked = false) (hearly : st.kind.waits = false) (hexprs : st.exprs = [e, e']) :
    pass.evaluated st =
      ((pass.resolved st e).statement.resolve (some st.card.operandPosition) pass.location
        (pass.resolved st e).scope e').scope := by
  rw [evaluated, Statement.earlyOperands_of_free hfree hearly, hexprs, Statement.resolve_scope,
    resolved, Statement.resolve_scope]
  rfl

theorem Placed.scope {pass : FirstPass} {st : Statement} {result : FirstPass × Statement}
    (h : Placed pass st result) (hchecked : st.Checked) (hkind : st.kind ≠ .anchor) :
    result.1.scope =
      (pass.labelValue? result.2).elim (pass.evaluated st)
        ((pass.evaluated st).define result.2.location) := by
  have hnone : st.kind.arity.2 = 0 → pass.evaluated st = pass.scope := fun harity =>
    evaluated_of_none (hchecked.earlyOperands_of_arity harity)
  have hlate : st.kind.waits = true → pass.evaluated st = pass.scope := by
    intro hwaits
    exact evaluated_of_none (if_neg (by simp [hwaits]))
  cases h with
  | idle hidle =>
      rcases hidle with h | h | h | h
      · rw [evaluated_of_none (if_neg (by simp [h]))]
        simp [labelValue?, h]
      all_goals
        rw [hnone (by rw [h]; rfl)]
        simp [labelValue?, h]
  | words hfree hwords =>
      rcases hwords with ⟨h, _⟩ | ⟨h | h | h, _⟩
      · rw [hlate (by rw [h]; rfl)]
        simp [labelValue?, reserve, hfree, h]
      all_goals
        rw [hnone (by rw [h]; rfl)]
        simp [labelValue?, reserve, hfree, h]
  | @block e _ hfree hexprs hblock =>
      rcases resolved_statement pass st e with ⟨reports, hst⟩
      rcases hblock with ⟨h, hbinding⟩ | ⟨h, hbinding⟩
      · rw [evaluated_of_single hfree (by rw [h]; rfl) hexprs, hst]
        simp [labelValue?, reserve, hfree, h, hbinding]
      · rw [evaluated_of_single hfree (by rw [h]; rfl) hexprs, hst]
        simp [labelValue?, reserve, hfree, h, hbinding, Address.add_last]
  | @equated e value hfree hexprs hequate hvalue =>
      rcases resolved_statement pass st e with ⟨reports, hst⟩
      rw [resolved, Statement.resolve_value] at hvalue
      rcases hequate with h | h
      all_goals
        rw [evaluated_of_single hfree (by rw [h]; rfl) hexprs, hst]
        simp [labelValue?, hfree, h, hexprs, hvalue]
  | @unequated e hfree hexprs hequate hvalue =>
      rcases resolved_statement pass st e with ⟨reports, hst⟩
      rw [resolved, Statement.resolve_value] at hvalue
      rcases hequate with h | h
      all_goals
        rw [evaluated_of_single hfree (by rw [h]; rfl) hexprs, hst]
        simp [labelValue?, hfree, h, hexprs, hvalue]
  | @origin e hfree hexprs horigin =>
      rcases resolved_statement pass st e with ⟨reports, hst⟩
      rw [evaluated_of_single hfree (by rw [horigin]; rfl) hexprs, hst]
      simp [labelValue?, hfree, horigin]
  | @repetition e e' hfree hexprs hrepeat words times hwords htimes =>
      have hst : times.statement.beforeSpace = st.beforeSpace := by
        rw [htimes, hwords]
        exact (Statement.resolve_part _ _ _ _ _ Statement.beforeSpace fun _ _ => rfl).trans
          (resolved_part Statement.beforeSpace fun _ _ => rfl)
      have hblocked : times.statement.blocked = st.blocked :=
        Statement.of_frame Statement.beforeSpace Statement.blocked (fun _ => rfl) hst
      have htimesKind : times.statement.kind = st.kind :=
        Statement.of_frame Statement.beforeSpace Statement.kind (fun _ => rfl) hst
      rw [evaluated_of_pair hfree (by rw [hrepeat]; rfl) hexprs, ← hwords, ← htimes]
      simp [labelValue?, reserve, hfree, hrepeat, hblocked, htimesKind]
  | anchor _ _ hother => exact absurd hother hkind
  | finish hfree hfinish =>
      rw [hlate (by rw [hfinish]; rfl)]
      simp [labelValue?, reserve, hfree, hfinish]
  | format hfree hformat =>
      rcases hformat with ⟨h, _⟩ | ⟨h, _⟩
      all_goals
        rw [hnone (by rw [h]; rfl)]
        simp [labelValue?, setFormat, hfree, h]

theorem Placed.of_anchor {pass : FirstPass} {st : Statement} {result : FirstPass × Statement}
    (h : Placed pass st result) (hchecked : st.Checked) (hkind : st.kind = .anchor) :
    ∃ e, st.exprs = [e] ∧ st.blocked = false ∧ result =
      ({ pass with scope := (pass.resolved st e).scope.install (pass.resolved st e).address },
        (pass.resolved st e).statement) := by
  cases h with
  | @anchor e hfree hexprs => exact ⟨e, hexprs, hfree, rfl⟩
  | idle hidle =>
      rcases hidle with h | h
      · have hblockable := hchecked.blockable h
        simp [hkind] at hblockable
      · simp [hkind] at h
  | words _ hother => simp [hkind] at hother
  | block _ _ hother => simp [hkind] at hother
  | equated _ _ hother => simp [hkind] at hother
  | unequated _ _ hother => simp [hkind] at hother
  | origin _ _ hother => simp [hkind] at hother
  | repetition _ _ hother => simp [hkind] at hother
  | finish _ hother => simp [hkind] at hother
  | format _ hother => simp [hkind] at hother

theorem Placed.scope_of_anchor {pass : FirstPass} {st : Statement} {result : FirstPass × Statement}
    (h : Placed pass st result) (hchecked : st.Checked) (hkind : st.kind = .anchor) :
    ∃ e, st.exprs = [e] ∧
      result.1.scope = (pass.evaluated st).install
        (.ofInt (Statement.outcomeNumber
          (e.eval (Scope.environment pass.location) pass.scope).1)) := by
  rcases h.of_anchor hchecked hkind with ⟨e, hexprs, hfree, rfl⟩
  refine ⟨e, hexprs, ?_⟩
  rw [evaluated_of_single hfree (by rw [hkind]; rfl) hexprs, Statement.Resolved.address, resolved,
    Statement.resolve_number]

namespace Entry

def evaluated (entry : Entry) : Scope :=
  entry.before.evaluated entry.statement

def trials (entry : Entry) : List Trial :=
  entry.before.scope.trials entry.before.location entry.statement.earlyOperands

def missed (entry : Entry) : List (Text × Word) :=
  entry.trials.flatMap Trial.missed

def labelled (entry : Entry) : List (Text × Word) :=
  entry.label?.toList.filter fun label => !entry.evaluated.symbols.defines label.1

theorem gains (entry : Entry) : entry.before.scope.Gains entry.missed entry.evaluated :=
  Scope.trials_gains _ _ _

namespace Placed

variable {entry : Entry}

theorem part {α : Type} (h : entry.Placed) (part : Statement → α)
    (hpart : ∀ st : Statement, part st.beforeSpace = part st) :
    part entry.statement = part (entry.before.incoming entry.card) :=
  Statement.of_frame Statement.beforeSpace part hpart (FirstPass.Placed.beforeSpace h)

theorem evaluated_eq (h : entry.Placed) :
    entry.evaluated = entry.before.evaluated (entry.before.incoming entry.card) :=
  h.part entry.before.evaluated fun _ => rfl

theorem location_eq (h : entry.Placed) : entry.statement.location = entry.card.location :=
  (h.part Statement.location fun _ => rfl).trans (incoming_location entry.before entry.card)

theorem scope_of_other (h : entry.Placed) (hkind : entry.statement.kind ≠ .anchor) :
    entry.after.scope.symbols = entry.evaluated.symbols.defineAll entry.label?.toList ∧
      entry.after.scope.anchor = entry.evaluated.anchor := by
  rw [h.part Statement.kind fun _ => rfl] at hkind
  have hscope : entry.after.scope = (entry.before.labelValue? entry.statement).elim
      (entry.before.evaluated (entry.before.incoming entry.card))
      ((entry.before.evaluated (entry.before.incoming entry.card)).define
        entry.statement.location) :=
    FirstPass.Placed.scope h (incoming_checked _ _) hkind
  rw [← h.evaluated_eq, h.location_eq] at hscope
  rw [hscope, label?]
  cases entry.before.labelValue? entry.statement with
  | none => simp [SymbolTable.defineAll]
  | some value =>
      by_cases hempty : entry.card.location.isEmpty = true
      · simp [Scope.define, hempty, SymbolTable.defineAll]
      · simp [Scope.define, hempty, SymbolTable.defineAll]

theorem scope_of_anchor (h : entry.Placed) (hkind : entry.statement.kind = .anchor) :
    ∃ e, entry.statement.exprs = [e] ∧ entry.label? = none ∧
      entry.after.scope.symbols = entry.evaluated.symbols ∧
      entry.after.scope.anchor = entry.evaluated.anchor.or (some (.ofInt (Statement.outcomeNumber
        (e.eval (Scope.environment entry.before.location) entry.before.scope).1))) := by
  have hlabel : entry.label? = none := by
    have hvalue : entry.before.labelValue? entry.statement = none := by
      simp [labelValue?, hkind]
    rw [label?, hvalue]
    exact ite_self none
  rw [h.part Statement.kind fun _ => rfl] at hkind
  rcases FirstPass.Placed.scope_of_anchor h (incoming_checked _ _) hkind with ⟨e, hexprs, hscope⟩
  have hinstalled : entry.after.scope =
      (entry.before.evaluated (entry.before.incoming entry.card)).install _ := hscope
  rw [← h.part Statement.exprs fun _ => rfl] at hexprs
  rw [← h.evaluated_eq] at hinstalled
  refine ⟨e, hexprs, hlabel, ?_⟩
  rw [hinstalled, Scope.install]
  cases hanchor : entry.evaluated.anchor with
  | none => exact ⟨rfl, rfl⟩
  | some address => exact ⟨rfl, hanchor⟩

theorem entries (h : entry.Placed) :
    entry.after.scope.symbols.entries =
      entry.before.scope.symbols.entries ++ (entry.missed ++ entry.labelled) := by
  have hsymbols : entry.after.scope.symbols =
      entry.evaluated.symbols.defineAll entry.label?.toList := by
    by_cases hkind : entry.statement.kind = .anchor
    · rcases h.scope_of_anchor hkind with ⟨_, _, hlabel, hsymbols, _⟩
      rw [hsymbols, hlabel]
      rfl
    · exact (h.scope_of_other hkind).1
  rw [hsymbols, ← List.append_assoc, ← entry.gains.entries, labelled]
  cases entry.label? with
  | none => simp [SymbolTable.defineAll]
  | some label =>
      cases hdefined : entry.evaluated.symbols.defines label.1 with
      | false => simp [SymbolTable.defineAll, SymbolTable.define, hdefined]
      | true => simp [SymbolTable.defineAll, SymbolTable.define, hdefined]

theorem handsOut (h : entry.Placed) (hanchor : entry.before.scope.anchor.isSome) :
    Scope.HandsOut entry.before.scope.anchor entry.missed entry.after.scope.anchor := by
  have hkept : entry.after.scope.anchor = entry.evaluated.anchor := by
    by_cases hkind : entry.statement.kind = .anchor
    · rcases h.scope_of_anchor hkind with ⟨_, _, _, _, hafter⟩
      have hstill : entry.evaluated.anchor.isSome :=
        (Scope.evalAll_leadsTo _ _ _).grows.anchored hanchor
      rw [hafter, Option.or_of_isSome hstill]
    · exact (h.scope_of_other hkind).2
  rw [hkept]
  exact entry.gains.handsOut

theorem unanchored (h : entry.Placed) (hanchor : entry.before.scope.anchor = none) :
    entry.missed = [] ∧ entry.evaluated.anchor = none ∧
      (entry.statement.kind ≠ .anchor → entry.after.scope.anchor = none) := by
  have hhands := entry.gains.handsOut
  rw [hanchor] at hhands
  rcases hhands.of_none with ⟨hmissed, hevaluated⟩
  refine ⟨hmissed, hevaluated, ?_⟩
  intro hkind
  rw [(h.scope_of_other hkind).2, hevaluated]

end Placed

end Entry

/-!
# Many cards

Entries that follow each other add up what they missed.  The anchor moves by one
location for each missed symbol.
-/

def Linked (pass : FirstPass) : List Entry → Prop
  | [] => True
  | entry :: rest => entry.before = pass ∧ entry.Placed ∧ Linked entry.after rest

theorem history_linked (pass : FirstPass) (cards : List Card) :
    pass.Linked (pass.history cards) := by
  induction cards generalizing pass with
  | nil => trivial
  | cons card rest ih =>
      rcases history_cons pass card rest with ⟨entry, hhistory, _, hbefore, hplaced, _⟩
      rw [hhistory]
      exact ⟨hbefore, hplaced, ih entry.after⟩

namespace Linked

theorem append {pass : FirstPass} {entries others : List Entry}
    (h : pass.Linked (entries ++ others)) :
    pass.Linked entries ∧ (pass.afterAll entries).Linked others := by
  induction entries generalizing pass with
  | nil => exact ⟨trivial, h⟩
  | cons entry rest ih =>
      rcases h with ⟨hbefore, hplaced, hrest⟩
      rcases ih hrest with ⟨hlinked, hothers⟩
      exact ⟨⟨hbefore, hplaced, hlinked⟩, hothers⟩

theorem entries {pass : FirstPass} {entries : List Entry} (h : pass.Linked entries) :
    (pass.afterAll entries).scope.symbols.entries =
      pass.scope.symbols.entries ++
        entries.flatMap fun entry => entry.missed ++ entry.labelled := by
  induction entries generalizing pass with
  | nil => exact (List.append_nil _).symm
  | cons entry rest ih =>
      rcases h with ⟨hbefore, hplaced, hrest⟩
      show (entry.after.afterAll rest).scope.symbols.entries = _
      rw [ih hrest, hplaced.entries, hbefore, List.flatMap_cons, List.append_assoc]

theorem anchored {pass : FirstPass} {entries : List Entry} (h : pass.Linked entries)
    (hanchor : pass.scope.anchor.isSome) :
    (pass.afterAll entries).scope.anchor.isSome ∧
      ∀ entry ∈ entries, entry.before.scope.anchor.isSome := by
  induction entries generalizing pass with
  | nil =>
      refine ⟨hanchor, ?_⟩
      intro entry hmem
      cases hmem
  | cons entry rest ih =>
      rcases h with ⟨hbefore, hplaced, hrest⟩
      rw [← hbefore] at hanchor
      rcases ih hrest ((FirstPass.Placed.extends hplaced).anchored hanchor) with ⟨hlast, hothers⟩
      refine ⟨hlast, ?_⟩
      intro other hmem
      cases hmem with
      | head => exact hanchor
      | tail _ htail => exact hothers other htail

theorem handsOut {pass : FirstPass} {entries : List Entry} (h : pass.Linked entries)
    (hanchor : pass.scope.anchor.isSome) :
    Scope.HandsOut pass.scope.anchor (entries.flatMap Entry.missed)
      (pass.afterAll entries).scope.anchor := by
  induction entries generalizing pass with
  | nil => exact Scope.HandsOut.nothing _
  | cons entry rest ih =>
      rcases h with ⟨hbefore, hplaced, hrest⟩
      rw [← hbefore] at hanchor ⊢
      have hafter := (FirstPass.Placed.extends hplaced).anchored hanchor
      exact (hplaced.handsOut hanchor).append (ih hrest hafter)

theorem unanchored {pass : FirstPass} {entries : List Entry} (h : pass.Linked entries)
    (hanchor : pass.scope.anchor = none)
    (hkinds : ∀ entry ∈ entries, entry.statement.kind ≠ .anchor) :
    (pass.afterAll entries).scope.anchor = none ∧ ∀ entry ∈ entries, entry.missed = [] := by
  induction entries generalizing pass with
  | nil =>
      refine ⟨hanchor, ?_⟩
      intro entry hmem
      cases hmem
  | cons entry rest ih =>
      rcases h with ⟨hbefore, hplaced, hrest⟩
      rw [← hbefore] at hanchor
      rcases hplaced.unanchored hanchor with ⟨hmissed, _, hafter⟩
      rcases ih hrest (hafter (hkinds entry List.mem_cons_self))
        (fun other hmem => hkinds other (List.mem_cons_of_mem _ hmem)) with ⟨hlast, hothers⟩
      refine ⟨hlast, ?_⟩
      intro other hmem
      cases hmem with
      | head => exact hmissed
      | tail _ htail => exact hothers other htail

end Linked

end FirstPass

/-!
# The second pass

Operands that wait are evaluated statement by statement from the last scope on.
-/

namespace SecondPass

def trials (scope : Scope) : List Statement → List Trial
  | [] => []
  | st :: rest =>
      scope.trials st.base st.lateOperands ++
        trials (scope.evalAll st.base st.lateOperands).2 rest

theorem Given.scope_eq {pass : SecondPass} {st : Statement} {words : List Word} {scope : Scope}
    (h : Given pass st words scope) :
    scope = (pass.scope.evalAll st.base st.lateOperands).2 := by
  cases h with
  | nothing hkind =>
      have hnone : st.lateOperands = [] := by
        apply if_neg
        rintro ⟨hfree, hwaits⟩
        rcases hkind with h | h | h | h | h | h | h | h | h | h | h | h
        · rw [hfree] at h
          cases h
        all_goals
          rw [h] at hwaits
          cases hwaits
      rw [hnone]
      rfl
  | data hfree hkind =>
      rcases hkind with h | h | h <;> simp [Statement.lateOperands, StatementKind.waits, h, Scope.evalAll]
  | copies hfree hkind => simp [Statement.lateOperands, StatementKind.waits, hkind, Scope.evalAll]
  | instruction hfree hkind =>
      rw [Statement.lateOperands, if_pos ⟨hfree, by rw [hkind]; rfl⟩]
  | finish hfree hkind => rw [Statement.lateOperands, if_pos ⟨hfree, by rw [hkind]; rfl⟩]

theorem Run.gains {pass last : SecondPass} {sts sts' : List Statement}
    (h : Run pass sts last sts') :
    pass.scope.Gains ((trials pass.scope sts).flatMap Trial.missed) last.scope := by
  induction h with
  | nil pass => exact Scope.Gains.refl _
  | @cons pass next last st st' rest rest' hfirst _ ih =>
      have hscope : next.scope = (pass.scope.evalAll st.base st.lateOperands).2 := by
        rw [hfirst.given.scope_eq]
        exact Statement.of_frame Statement.beforeWords
          (fun st => (pass.scope.evalAll st.base st.lateOperands).2) (fun _ => rfl) hfirst.kept
      rw [trials, List.flatMap_append]
      rw [hscope] at ih
      exact (Scope.trials_gains _ _ _).trans ih

end SecondPass

/-!
# Reports

With an anchor set in time for its operands, a statement is not reported for an
undefined symbol.
-/

namespace Statement

theorem failures_of_found {st : Statement} {outcomes : List (Except Expr.EvalError Int64)}
    (h : ∀ outcome ∈ outcomes, ∀ name, outcome ≠ .error (.undefined name)) :
    (st.failures outcomes).filter Report.undefined = [] := by
  rw [List.filter_eq_nil_iff]
  intro report hmem hundefined
  rcases List.mem_filterMap.mp hmem with ⟨outcome, houtcome, hreport⟩
  cases outcome with
  | ok value => cases hreport
  | error error =>
      cases hreport
      cases error with
      | divideByZero => cases hundefined
      | undefined name => exact h _ houtcome name rfl

end Statement

namespace Assembler.Follows

variable {asm : Assembler} {entry : FirstPass.Entry} {st : Statement}

theorem reports_of_blocked (h : asm.Follows entry st) (hblocked : st.blocked = true) :
    st.reports = (entry.before.incoming entry.card).reports := by
  rcases h.assembled with ⟨before, after, hassembled, _⟩
  have hsecond := hassembled.reports
  have hfirst := FirstPass.Placed.reports h.placed (FirstPass.incoming_checked _ _)
  rw [SecondPass.failures, if_neg (by rw [← h.part Statement.blocked fun _ => rfl]; simp [hblocked]),
    List.append_nil] at hsecond
  rw [FirstPass.failures,
    if_neg (by rw [← h.cardPart Statement.blocked (fun _ => rfl) fun _ => rfl]; simp [hblocked]),
    List.append_nil] at hfirst
  rw [hsecond, hfirst]

theorem undefinedReports_of_anchored (h : asm.Follows entry st)
    (hanchor : (if st.kind.waits then asm.first.scope else entry.before.scope).anchor.isSome) :
    st.undefinedReports = [] := by
  have hown := (FirstPass.incoming_ownReports entry.before entry.card).undefinedReports
  unfold Statement.undefinedReports at hown ⊢
  cases hfree : st.blocked with
  | true => rw [h.reports_of_blocked hfree, hown]
  | false =>
      rw [h.reports hfree, List.filter_append, hown, List.nil_append]
      apply Statement.failures_of_found
      intro outcome hmem name
      cases hwaits : st.kind.waits with
      | true =>
          rw [hwaits, if_pos rfl] at hmem hanchor
          rcases List.mem_map.mp hmem with ⟨e, he, rfl⟩
          have hkind : st.kind = .instruction ∧ st.blocked = false ∨ st.kind = .finish := by
            cases hkind : st.kind <;> rw [hkind] at hwaits
            case instruction => exact .inl ⟨rfl, hfree⟩
            case finish => exact .inr rfl
            all_goals cases hwaits
          have hfound := Scope.findsAll_eval st.base e hanchor name
          rw [(h.agreesOn.late hkind e he).again] at hfound
          exact hfound
      | false =>
          rw [hwaits, if_neg Bool.false_ne_true] at hmem hanchor
          exact Scope.evalAll_found hanchor hmem name

end Assembler.Follows

/-!
# Whole programs

All operands of a program are put in the order in which they are evaluated, those of
the first pass before those that wait.  What they miss is counted from the first
anchor on.
-/

namespace Options

def lateTrials (options : Options) (cards : List Card) : List Trial :=
  SecondPass.trials (options.lastPass cards).scope
    ((options.history cards).map FirstPass.Entry.statement)

def trials (options : Options) (cards : List Card) : List Trial :=
  (options.history cards).flatMap FirstPass.Entry.trials ++ options.lateTrials cards

def missed (options : Options) (cards : List Card) : List (Text × Word) :=
  (options.trials cards).flatMap Trial.missed

theorem missed_eq (options : Options) (cards : List Card) :
    options.missed cards =
      (options.history cards).flatMap FirstPass.Entry.missed ++
        (options.lateTrials cards).flatMap Trial.missed := by
  rw [missed, trials, List.flatMap_append, List.flatMap_assoc]
  rfl

theorem linked (options : Options) (cards : List Card) :
    options.start.Linked (options.history cards) :=
  FirstPass.history_linked options.start cards

end Options

/-- How the anchor works in a program. -/
structure CountsMisses (options : Options) (cards : List Card) (asm : Assembler) : Prop where
  table : asm.symbols.entries =
    (options.history cards).flatMap (fun entry => entry.missed ++ entry.labelled) ++
      (options.lateTrials cards).flatMap Trial.missed
  order : ∀ trial ∈ options.trials cards, ∀ value, trial.outcome = .ok value →
    trial.missed.map Prod.fst =
      (trial.expr.references.filter fun name => !trial.scope.symbols.defines name).eraseDups
  kinds : ∀ earlier entry later, options.history cards = earlier ++ entry :: later →
    entry.statement.kind =
      if earlier.any (fun other => (Statement.classify other.card).1 = .finish) then .remark
      else (Statement.classify entry.card).1
  before : ∀ earlier entry later, options.history cards = earlier ++ entry :: later →
    (∀ other ∈ earlier, other.statement.kind ≠ .anchor) → entry.missed = []
  without : (∀ entry ∈ options.history cards, entry.statement.kind ≠ .anchor) →
    options.missed cards = []
  /-- Symbols that are missed have consecutive addresses from the operand of the first anchor
  card on, which counts as 0 if it has no value. -/
  counted : ∀ earlier entry later, options.history cards = earlier ++ entry :: later →
    (∀ other ∈ earlier, other.statement.kind ≠ .anchor) → entry.statement.kind = .anchor →
    ∃ e, entry.statement.exprs = [e] ∧
      (options.missed cards).map Prod.snd =
        (List.range (options.missed cards).length).map fun i : Nat =>
          Word.ofNat (Address.ofInt
            (entry.before.scope.symbols.number entry.before.location e + i)).val
  /-- After an anchor card no symbol is undefined, and neither is one in an instruction or in the
  end card, wherever these stand. -/
  reported : ∀ earlier entry later, options.history cards = earlier ++ entry :: later →
    entry.statement.kind = .anchor →
    (∀ st ∈ asm.statements.drop (earlier.length + 1), st.undefinedReports = []) ∧
      ∀ st ∈ asm.statements, st.kind = .instruction ∨ st.kind = .finish →
        st.undefinedReports = []

namespace Finished

variable {options : Options} {cards : List Card} {asm : Assembler}

theorem entries (h : Finished options cards asm) :
    asm.symbols.entries =
      (options.history cards).flatMap (fun entry => entry.missed ++ entry.labelled) ++
        (options.lateTrials cards).flatMap Trial.missed := by
  have hfirst : (options.lastPass cards).scope.symbols.entries =
      [] ++ (options.history cards).flatMap fun entry => entry.missed ++ entry.labelled :=
    (options.linked cards).entries
  rw [List.nil_append] at hfirst
  rw [← hfirst]
  exact h.run.gains.entries

theorem missed_handsOut (h : Finished options cards asm) {earlier later : List FirstPass.Entry}
    {entry : FirstPass.Entry} (hsplit : options.history cards = earlier ++ entry :: later)
    (hfirst : ∀ other ∈ earlier, other.statement.kind ≠ .anchor)
    (hkind : entry.statement.kind = .anchor) :
    ∃ e, entry.statement.exprs = [e] ∧
      Scope.HandsOut
        (some (.ofInt (entry.before.scope.symbols.number entry.before.location e)))
        (options.missed cards) asm.first.scope.anchor := by
  have hlinked := options.linked cards
  rw [hsplit] at hlinked
  rcases hlinked.append with ⟨hearlier, hbefore, hplaced, hlater⟩
  rcases hearlier.unanchored rfl hfirst with ⟨hnone, hnothing⟩
  rw [← hbefore] at hnone
  rcases hplaced.unanchored hnone with ⟨hown, hevaluated, _⟩
  rcases hplaced.scope_of_anchor hkind with ⟨e, hexprs, _, _, hanchor⟩
  rw [hevaluated, Option.none_or, Scope.eval_of_unanchored hnone] at hanchor
  have hmissed : options.missed cards =
      later.flatMap FirstPass.Entry.missed ++ (options.lateTrials cards).flatMap Trial.missed := by
    rw [options.missed_eq, hsplit, List.flatMap_append, List.flatMap_cons, hown,
      List.flatMap_eq_nil_iff.mpr hnothing]
    rfl
  have hlast : options.lastPass cards = entry.after.afterAll later := by
    rw [Options.lastPass, hsplit, FirstPass.afterAll_append]
    rfl
  have hrest := hlater.handsOut (by rw [hanchor]; rfl)
  rw [hanchor, ← hlast] at hrest
  refine ⟨e, hexprs, ?_⟩
  rw [hmissed]
  exact hrest.append h.run.gains.handsOut

theorem missed_of_no_anchor (h : Finished options cards asm)
    (hkinds : ∀ entry ∈ options.history cards, entry.statement.kind ≠ .anchor) :
    options.missed cards = [] := by
  rcases (options.linked cards).unanchored rfl hkinds with ⟨hnone, hnothing⟩
  have hlate := h.run.gains.handsOut
  change Scope.HandsOut (options.lastPass cards).scope.anchor _ _ at hlate
  rw [Options.lastPass, hnone] at hlate
  rw [options.missed_eq, List.flatMap_eq_nil_iff.mpr hnothing]
  exact hlate.of_none.1

theorem undefinedReports (h : Finished options cards asm) {earlier later : List FirstPass.Entry}
    {entry : FirstPass.Entry} (hsplit : options.history cards = earlier ++ entry :: later)
    (hkind : entry.statement.kind = .anchor) :
    (∀ st ∈ asm.statements.drop (earlier.length + 1), st.undefinedReports = []) ∧
      ∀ st ∈ asm.statements, st.kind = .instruction ∨ st.kind = .finish →
        st.undefinedReports = [] := by
  have hlinked := options.linked cards
  rw [hsplit] at hlinked
  rcases hlinked.append with ⟨_, _, hplaced, hlater⟩
  have hanchor : entry.after.scope.anchor.isSome := by
    rcases hplaced.scope_of_anchor hkind with ⟨_, _, _, _, hanchor⟩
    rw [hanchor, Option.isSome_or]
    exact Bool.or_true _
  rcases hlater.anchored hanchor with ⟨hlast, hothers⟩
  have hfinal : asm.first.scope.anchor.isSome := by
    apply h.run.leadsTo.grows.anchored
    show (options.lastPass cards).scope.anchor.isSome
    rw [Options.lastPass, hsplit, FirstPass.afterAll_append]
    exact hlast
  constructor
  · have hafter := List.forall₂_drop (earlier.length + 1) h.follows
    have hdrop : (options.history cards).drop (earlier.length + 1) = later := by
      rw [hsplit, ← List.drop_drop, List.drop_left]
      rfl
    rw [hdrop] at hafter
    intro st hmem
    rcases exists_left_of_forall₂ hafter hmem with ⟨other, hother, hfollows⟩
    apply hfollows.undefinedReports_of_anchored
    split
    · exact hfinal
    · exact hothers other hother
  · intro st hmem hwaits
    rcases exists_left_of_forall₂ h.follows hmem with ⟨other, _, hfollows⟩
    apply hfollows.undefinedReports_of_anchored
    rw [if_pos]
    · exact hfinal
    · rcases hwaits with hkind | hkind <;> rw [hkind] <;> rfl

end Finished

/-- Symbols that are defined by being looked up are counted from the operand of the first anchor
card on, through both passes and around the top of core. -/
theorem symbols_counted_from_anchor (options : Options) (source : Text) (lines : List Text)
    (h : Source.lines? source = some lines) :
    ∃ asm, assembleSource options source = .ok asm ∧
      CountsMisses options (Card.ofLines 1 lines) asm := by
  rcases assembleSource_finished options h with ⟨asm, hsource, hfinished⟩
  refine ⟨asm, hsource, ?_⟩
  constructor
  · exact hfinished.entries
  · intro trial _ value hvalue
    exact Trial.missed_of_ok hvalue
  · intro earlier entry later hsplit
    exact FirstPass.history_kind rfl hsplit
  · intro earlier entry later hsplit hfirst
    have hlinked := options.linked (Card.ofLines 1 lines)
    rw [hsplit] at hlinked
    rcases hlinked.append with ⟨hearlier, hbefore, hplaced, _⟩
    have hnone := (hearlier.unanchored rfl hfirst).1
    rw [← hbefore] at hnone
    exact (hplaced.unanchored hnone).1
  · exact hfinished.missed_of_no_anchor
  · intro earlier entry later hsplit hfirst hkind
    rcases hfinished.missed_handsOut hsplit hfirst hkind with ⟨e, hexprs, hhands⟩
    exact ⟨e, hexprs, hhands.values⟩
  · intro earlier entry later hsplit hkind
    exact hfinished.undefinedReports hsplit hkind

/-- The count starts in the middle of a product, goes around the top of core in an operand that
fails, and ends with an instruction before the anchor card and with the end card. -/
theorem symbols_counted_from_anchor_around_top :
    Source.lines? (.ofString
        "A\tCLA\tX+B,Y\n\tDEF\t32766\nB\tEQU\tY*Z+Y\n\tORG\tA+U/0\n\tDEF\tB\n\tEND\tV\n\tDEF\tW") =
      some [.ofString "A\tCLA\tX+B,Y", .ofString "\tDEF\t32766", .ofString "B\tEQU\tY*Z+Y",
        .ofString "\tORG\tA+U/0", .ofString "\tDEF\tB", .ofString "\tEND\tV",
        .ofString "\tDEF\tW"] ∧
      (∃ asm, assembleSource ⟨.zero, .absolute⟩ (.ofString
          "A\tCLA\tX+B,Y\n\tDEF\t32766\nB\tEQU\tY*Z+Y\n\tORG\tA+U/0\n\tDEF\tB\n\tEND\tV\n\tDEF\tW") =
          .ok asm ∧
        CountsMisses ⟨.zero, .absolute⟩ (Card.ofLines 1
          [.ofString "A\tCLA\tX+B,Y", .ofString "\tDEF\t32766", .ofString "B\tEQU\tY*Z+Y",
            .ofString "\tORG\tA+U/0", .ofString "\tDEF\tB", .ofString "\tEND\tV",
            .ofString "\tDEF\tW"]) asm) ∧
      Options.missed ⟨.zero, .absolute⟩ (Card.ofLines 1
          [.ofString "A\tCLA\tX+B,Y", .ofString "\tDEF\t32766", .ofString "B\tEQU\tY*Z+Y",
            .ofString "\tORG\tA+U/0", .ofString "\tDEF\tB", .ofString "\tEND\tV",
            .ofString "\tDEF\tW"]) =
        [(.ofString "Y", .ofNat 32766), (.ofString "Z", .ofNat 32767), (.ofString "U", .ofNat 0),
          (.ofString "X", .ofNat 1), (.ofString "V", .ofNat 2)] :=
  ⟨by decide, symbols_counted_from_anchor ⟨.zero, .absolute⟩ _ _ (by decide), by decide +kernel⟩

end Ibm704

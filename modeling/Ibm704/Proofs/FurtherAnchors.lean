import Ibm704.Proofs.Anchor
import Ibm704.Proofs.Layout

/-!
# Anchors after the first

The anchor is set once.  A card that would set it again only evaluates its operand,
and that alone can change the scope: symbols that have no definition take their
addresses from the anchor that is there.
-/

namespace Ibm704

/-!
# The symbols that an evaluation may miss

With a value or without one, an evaluation misses symbols from the left on.
-/

namespace Scope

theorem fresh_begins (scope : Scope) (names others : List Text) :
    scope.fresh names <+: scope.fresh (names ++ others) := by
  rw [fresh, fresh, List.filter_append, List.eraseDups_append]
  exact List.prefix_append _ _

def MissesSome (evaluation : Expr.Evaluation Scope) (names : List Text) : Prop :=
  ∀ first : Scope, ∃ log, first.Gains log (evaluation first).2 ∧
    log.map Prod.fst <+: first.fresh names

theorem missesSome_onBoth {operation : Int64 → Int64 → Except Expr.EvalError Int64}
    {left right : Expr.Evaluation Scope} {names others : List Text} (hleft : Misses left names)
    (hsome : MissesSome left names) (hright : MissesSome right others) :
    MissesSome (Expr.onBoth operation left right) (names ++ others) := by
  intro first
  have hboth : ∀ {a second}, left first = (.ok a, second) →
      ∃ log, first.Gains log (right second).2 ∧
        log.map Prod.fst <+: first.fresh (names ++ others) := by
    intro a second hl
    rcases hleft hl with ⟨log, hgains, hlog⟩
    rcases hright second with ⟨log', hgains', hlog'⟩
    refine ⟨log ++ log', hgains.trans hgains', ?_⟩
    rw [List.map_append, hgains.fresh_append hlog, hlog]
    exact (List.prefix_append_right_inj _).mpr hlog'
  rcases Expr.onBoth_cases operation left right first with
    ⟨error, t, hl, h⟩ | ⟨a, second, error, u, hl, hr, h⟩ | ⟨a, second, b, u, hl, hr, h⟩
  · rcases hsome first with ⟨log, hgains, hlog⟩
    rw [hl] at hgains
    rw [h]
    exact ⟨log, hgains, hlog.trans (fresh_begins first names others)⟩
  all_goals
    have hlog := hboth hl
    rw [hr] at hlog
    rw [h]
    exact hlog

theorem missesSome_eval (here : Address) (e : Expr) :
    MissesSome (e.eval (environment here)) e.references := by
  induction e with
  | add left right ihLeft ihRight
  | sub left right ihLeft ihRight
  | mul left right ihLeft ihRight
  | div left right ihLeft ihRight =>
      rw [Expr.references, Expr.referencesBefore, Expr.references_pair]
      exact missesSome_onBoth (misses_eval here left) ihLeft ihRight
  | neg operand ih =>
      intro first
      have hoperand := ih first
      rcases heval : operand.eval (environment here) first with ⟨error | a, u⟩
      all_goals
        rw [heval] at hoperand
        simp only [Expr.eval, heval]
        exact hoperand
  | sym name =>
      intro first
      cases heval : (Expr.sym name).eval (environment here) first with
      | mk outcome second =>
          cases outcome with
          | ok value =>
              rcases misses_sym here name heval with ⟨log, hgains, hlog⟩
              exact ⟨log, hgains, hlog ▸ List.prefix_rfl⟩
          | error error =>
              rcases hlookup : first.lookup name with ⟨_ | w, u⟩
              · simp only [Expr.eval, environment, hlookup] at heval
                cases heval
                rw [(lookup_eq_none hlookup).2.2]
                exact ⟨[], Gains.refl first, List.nil_prefix⟩
              · simp only [Expr.eval, environment, hlookup] at heval
                cases heval
  | int value
  | here
  | zero =>
      intro first
      exact ⟨[], Gains.refl first, List.nil_prefix⟩

theorem Gains.eq_of_nil {first second : Scope} (h : first.Gains [] second) : second = first := by
  rcases first with ⟨⟨entries⟩, anchor⟩
  rcases second with ⟨⟨entries'⟩, anchor'⟩
  have hentries := h.entries
  rw [List.append_nil] at hentries
  cases hentries
  cases h.handsOut
  rfl

end Scope

namespace Trial

theorem missed_begins (trial : Trial) :
    trial.missed.map Prod.fst <+: trial.scope.fresh trial.expr.references := by
  rcases Scope.missesSome_eval trial.here trial.expr trial.scope with ⟨log, hgains, hlog⟩
  have hsame : trial.missed = log := hgains.missed_eq
  rw [hsame]
  exact hlog

theorem after_eq_iff (trial : Trial) : trial.after = trial.scope ↔ trial.missed = [] := by
  constructor
  · intro hsame
    rw [missed, hsame, (Scope.Gains.refl trial.scope).missed_eq]
  · intro hnone
    have hgains := trial.gains
    rw [hnone] at hgains
    exact hgains.eq_of_nil

end Trial

/-!
# The anchor stays

A later anchor card tries its operand and changes nothing else.
-/

namespace SecondPass

theorem assemble_extends {pass next : SecondPass} {st st' : Statement}
    (h : pass.assemble st = .ok (next, st')) : pass.scope.Extends next.scope := by
  rcases assemble_resolves h with ⟨exprs, words, operands, rfl, _, hscope, _⟩
  rw [hscope, (Statement.resolveAll_eq _ _ _ _ _).2]
  exact (Scope.evalAll_leadsTo _ _ _).grows

theorem assembleAll_extends (pass : SecondPass) (sts : List Statement) :
    pass.scope.Extends (pass.assembleAll sts).pass.scope := by
  induction sts generalizing pass with
  | nil => exact .refl _
  | cons st rest ih =>
      unfold assembleAll
      split
      · rename_i next st' hassemble
        exact (assemble_extends hassemble).trans (ih next)
      · exact .refl _

end SecondPass

namespace FirstPass

theorem Entry.Placed.anchored {entry : Entry} (h : entry.Placed)
    (hkind : entry.statement.kind = .anchor) : entry.after.scope.anchor.isSome := by
  rcases h.scope_of_anchor hkind with ⟨e, _, _, _, hanchor⟩
  rw [hanchor, Option.isSome_or]
  exact Bool.or_true _

end FirstPass

namespace Assembler

def Anchored (asm : Assembler) : Prop :=
  (∃ st ∈ asm.statements, st.kind = .anchor) → asm.first.scope.anchor.isSome

theorem Reachable.anchored {options : Options} {asm : Assembler} (h : Reachable options asm) :
    asm.Anchored := by
  induction h with
  | start =>
      rintro ⟨st, hmem, _⟩
      cases hmem
  | @card asm asm' card st _ hcard ih =>
      rcases FirstPass.enter_placed asm.first card with ⟨⟨after, placed⟩, henter, hplaced⟩
      have hentry : FirstPass.Entry.Placed ⟨card, asm.first, after, placed⟩ := hplaced
      rw [addCard, henter] at hcard
      cases hcard
      rintro ⟨st, hmem, hkind⟩
      rcases List.mem_append.mp hmem with hold | hnew
      · exact (FirstPass.Placed.extends hplaced).anchored (ih ⟨st, hold, hkind⟩)
      · cases List.mem_singleton.mp hnew
        exact hentry.anchored hkind
  | @cards asm asm' cards _ hcards ih =>
      rw [addCards, FirstPass.enterAll_eq] at hcards
      cases hcards
      rintro ⟨st, hmem, hkind⟩
      rcases List.mem_append.mp hmem with hold | hnew
      · exact ((FirstPass.history_linked asm.first cards).anchored (ih ⟨st, hold, hkind⟩)).1
      · rcases List.mem_map.mp hnew with ⟨entry, hentry, rfl⟩
        have hanchor := (FirstPass.history_placed entry hentry).anchored hkind
        exact (FirstPass.history_extends asm.first cards entry hentry).anchored hanchor
  | @finish asm _ ih =>
      have hkept := SecondPass.assembleAll_kept asm.secondPass asm.statements
      have hkinds := congrArg (List.map Statement.kind) hkept
      rw [List.map_map, List.map_map] at hkinds
      rintro ⟨st, hmem, hkind⟩
      have hlater : StatementKind.anchor ∈ asm.statements.map Statement.kind :=
        hkinds ▸ hkind ▸ List.mem_map_of_mem hmem
      exact (SecondPass.assembleAll_extends _ _).anchored (ih (List.mem_map.mp hlater))
  | lookup name _ ih =>
      intro hsome
      exact (Scope.lookup_extends _ name).anchored (ih hsome)
  | define name value _ ih => exact ih

theorem addCard_of_anchored {asm : Assembler} {card : Card}
    (hanchor : asm.first.scope.anchor.isSome) (hopen : asm.first.ended = false)
    (hcard : (Statement.classify card).1 = .anchor) :
    ∃ e st, st.exprs = [e] ∧ asm.addCard card = .ok ({ asm with
      first := { asm.first with
        scope := (Trial.mk asm.location asm.first.scope e).after
        current := none }
      statements := asm.statements ++ [st] }, st) := by
  have hkind : (asm.first.incoming card).kind = .anchor := by
    rw [FirstPass.incoming_kind, FirstPass.kindOf, hopen, if_neg Bool.false_ne_true, hcard]
  rcases FirstPass.enter_placed asm.first card with ⟨result, henter, hplaced⟩
  rcases hplaced.of_anchor (FirstPass.incoming_checked _ _) hkind with ⟨e, hexprs, _, rfl⟩
  have hkept : (asm.first.setDown.resolved (asm.first.incoming card) e).statement.exprs = [e] :=
    (FirstPass.resolved_part Statement.exprs fun _ _ => rfl).trans hexprs
  have hstill : (asm.first.setDown.resolved (asm.first.incoming card) e).scope.anchor.isSome :=
    (FirstPass.resolved_extends _ _ e).anchored hanchor
  refine ⟨e, _, hkept, ?_⟩
  rw [addCard, henter, Scope.install, if_pos hstill, FirstPass.resolved, Statement.resolve_scope]
  rfl

end Assembler

/-- The card is taken, and nothing comes of it but the trial of its operand. -/
structure Assembler.OnlyTries (asm : Assembler) (card : Card) (st : Statement) (trial : Trial) :
    Prop where
  here : trial.here = asm.location
  scope : trial.scope = asm.first.scope
  operand : st.exprs = [trial.expr]
  added : asm.addCard card = .ok ({ asm with
    first := { asm.first with scope := trial.after, current := none }
    statements := asm.statements ++ [st] }, st)
  gains : asm.first.scope.Gains trial.missed trial.after
  missed : trial.missed.map Prod.fst <+: asm.first.scope.fresh trial.expr.references
  missed_of_ok : ∀ value, trial.outcome = .ok value →
    trial.missed.map Prod.fst = asm.first.scope.fresh trial.expr.references
  kept_iff : trial.after = asm.first.scope ↔ trial.missed = []

/-- A card that would set the anchor once more sets nothing, whatever its operand is.  It
changes the scope only if the operand mentions a symbol that has no definition. -/
theorem further_anchors_only_try {options : Options} {asm : Assembler}
    (hreachable : Assembler.Reachable options asm)
    (hbefore : ∃ st ∈ asm.statements, st.kind = .anchor) (hopen : asm.first.ended = false)
    {card : Card} (hcard : (Statement.classify card).1 = .anchor) :
    ∃ st trial, asm.OnlyTries card st trial := by
  rcases Assembler.addCard_of_anchored (hreachable.anchored hbefore) hopen hcard with
    ⟨e, st, hexprs, hadd⟩
  let trial : Trial := ⟨asm.location, asm.first.scope, e⟩
  exact ⟨st, trial, rfl, rfl, hexprs, hadd, trial.gains, trial.missed_begins,
    fun _ => trial.missed_of_ok, trial.after_eq_iff⟩

/-- The operand fails, but two of its symbols have been looked up before that. -/
theorem further_anchors_only_try_failing :
    let asm := Options.entered ⟨.zero, .absolute⟩ [Card.ofLine 1 (.ofString "\tDEF\t100")]
    let card := Card.ofLine 2 (.ofString "\tDEF\tX+Y/0*Z")
    Assembler.Reachable ⟨.zero, .absolute⟩ asm ∧ (∃ st ∈ asm.statements, st.kind = .anchor) ∧
      asm.first.ended = false ∧ (Statement.classify card).1 = .anchor ∧
      (∃ st trial, asm.OnlyTries card st trial) ∧
      (asm.addCard card).toOption.map (fun added => added.1.first.scope) =
        some ⟨⟨[(.ofString "X", .ofNat 100), (.ofString "Y", .ofNat 101)]⟩, some (.ofInt 102)⟩ := by
  intro asm card
  have hreachable : Assembler.Reachable ⟨.zero, .absolute⟩ asm :=
    Assembler.Reachable.start.cards (Options.addCards_entered _ _)
  have hbefore : ∃ st ∈ asm.statements, st.kind = .anchor := by decide
  have hopen : asm.first.ended = false := by decide
  have hcard : (Statement.classify card).1 = .anchor := by decide
  exact ⟨hreachable, hbefore, hopen, hcard,
    further_anchors_only_try hreachable hbefore hopen hcard, by decide +kernel⟩

/-- A card that would set the anchor once more defines a symbol by mentioning it. -/
theorem further_anchor_defines :
    ¬ ∀ (options : Options) (asm asm' : Assembler) (card : Card) (st : Statement),
      Assembler.Reachable options asm → (∃ st ∈ asm.statements, st.kind = .anchor) →
      asm.first.ended = false → (Statement.classify card).1 = .anchor →
      asm.addCard card = .ok (asm', st) →
      asm'.first.scope = asm.first.scope ∧ asm'.location = asm.location ∧
        asm'.first.format = asm.first.format := by
  intro hkept
  let asm := Options.entered ⟨.zero, .absolute⟩ [Card.ofLine 1 (.ofString "\tDEF\t100")]
  let card := Card.ofLine 2 (.ofString "\tDEF\tX")
  have hreachable : Assembler.Reachable ⟨.zero, .absolute⟩ asm :=
    Assembler.Reachable.start.cards (Options.addCards_entered _ _)
  have hbefore : ∃ st ∈ asm.statements, st.kind = .anchor := by decide
  have hopen : asm.first.ended = false := by decide
  have hcard : (Statement.classify card).1 = .anchor := by decide
  rcases Assembler.addCard_of_anchored (hreachable.anchored hbefore) hopen hcard with
    ⟨e, st, _, hadd⟩
  have hsame := (hkept _ asm _ card st hreachable hbefore hopen hcard hadd).1
  have hother : (asm.addCard card).toOption.map (fun added => added.1.first.scope) ≠
      some asm.first.scope := by
    decide +kernel
  rw [hadd] at hother
  exact hother (congrArg some hsame)

end Ibm704

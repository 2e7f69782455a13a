import Ibm704.Proofs.Labels
import Ibm704.Proofs.Reports

/-!
# Undefined symbols

Which symbols an operand can see depends on the pass that evaluates it.  An
instruction and the end card see the labels of the whole program, since they wait
for the second pass.  All other operands decide about space or symbols, and see
the labels of earlier cards only.  In both cases an operand without a division is
reported exactly if it has a symbol that it cannot see, and the report names the
first of these symbols.
-/

namespace Ibm704

/-!
# Symbols that cards define

Without an anchor, the symbols that are defined before a card are the labels of the
cards before it.
-/

namespace FirstPass

def binds (entries : List Entry) (name : Text) : Bool :=
  entries.any fun entry => entry.label?.any fun label => label.1 == name

theorem defines_labels (entries : List Entry) (name : Text) :
    (SymbolTable.empty.defineAll (entries.filterMap Entry.label?)).defines name =
      binds entries name := by
  rw [Bool.eq_iff_iff, SymbolTable.defines_iff_mem_names,
    (SymbolTable.names_defineAll_empty _).2, List.mem_eraseDups]
  simp only [binds, List.any_eq_true, Option.any_eq_true, beq_iff_eq, List.mem_map,
    List.mem_filterMap]
  constructor
  · rintro ⟨label, ⟨entry, hmem, hlabel⟩, hname⟩
    exact ⟨entry, hmem, label, hlabel, hname⟩
  · rintro ⟨entry, hmem, label, hlabel, hname⟩
    exact ⟨label, ⟨entry, hmem, hlabel⟩, hname⟩

theorem history_defines {pass : FirstPass} {cards : List Card} {earlier later : List Entry}
    {entry : Entry} (hempty : pass.scope = .empty)
    (hkinds : ∀ card ∈ cards, (Statement.classify card).1 ≠ .anchor)
    (h : pass.history cards = earlier ++ entry :: later) :
    entry.before.scope.anchor = none ∧
      ∀ name, entry.before.scope.symbols.defines name = binds earlier name := by
  rcases history_before h with ⟨before, after, hcards, hearlier, hentry⟩
  have hbefore : ∀ card ∈ before, (Statement.classify card).1 ≠ .anchor := by
    intro card hmem
    apply hkinds
    rw [hcards]
    exact List.mem_append_left _ hmem
  have hanchor : pass.scope.anchor = none := by rw [hempty]; rfl
  rcases history_symbols hanchor hbefore with ⟨hnone, hsymbols⟩
  rw [hearlier, ← hentry] at hnone hsymbols
  refine ⟨hnone, ?_⟩
  intro name
  rw [hsymbols, hempty]
  exact defines_labels earlier name

end FirstPass

/-!
# Reports on undefined symbols

A card by itself is never reported for an undefined symbol, and an operand is reported
for the first one in it.
-/

namespace Report

def undefined (report : Report) : Bool :=
  match report.problem with
  | .undefinedSymbol _ => true
  | _ => false

end Report

namespace Statement

def undefinedReports (st : Statement) : List Report :=
  st.reports.filter Report.undefined

/-- One report for each operand that has a symbol without a definition.  It names the first such
symbol of the operand, from left to right. -/
def missingSymbols (st : Statement) (defined : Text → Bool) : List Report :=
  st.exprs.filterMap fun e =>
    (e.references.find? fun name => !defined name).map fun name =>
      ⟨.error, st.card.operandPosition, .undefinedSymbol name⟩

theorem missingSymbols_undefined (st : Statement) (defined : Text → Bool) :
    (st.missingSymbols defined).filter Report.undefined = st.missingSymbols defined := by
  rw [List.filter_eq_self]
  intro report hmem
  rcases List.mem_filterMap.mp hmem with ⟨e, _, hreport⟩
  rcases Option.map_eq_some_iff.mp hreport with ⟨name, _, rfl⟩
  rfl

theorem failures_of_undivided {st : Statement} (h : ∀ e ∈ st.exprs, e.undivided = true)
    (table : SymbolTable) (here : Address) :
    st.failures (st.exprs.map (table.eval here)) = st.missingSymbols table.defines := by
  unfold failures missingSymbols
  rw [List.filterMap_map]
  apply List.filterMap_congr
  intro e hmem
  have hfailure := Expr.eval_failure?_of_undivided (table.environment here) (h e hmem)
  have hfirst : e.firstUndefined? (table.environment here) =
      e.references.find? fun name => !table.defines name := by
    unfold Expr.firstUndefined? SymbolTable.defines
    simp only [Option.not_isSome]
    rfl
  show (Expr.failure? (e.eval (table.environment here) ()).1).map st.operandReport = _
  rw [hfailure, hfirst, Option.map_map]
  rfl

theorem OwnReports.undefinedReports {st : Statement} (h : st.OwnReports) :
    st.undefinedReports = [] := by
  unfold Statement.undefinedReports
  rw [List.filter_eq_nil_iff]
  intro report hmem hundefined
  rcases h report hmem with ⟨problem, hown, rfl⟩
  unfold Report.undefined at hundefined
  split at hundefined
  · rename_i name hname
    rw [show problem = .undefinedSymbol name from hname] at hown
    cases hown
  · cases hundefined

end Statement

/-!
# What operands can see

Operands of the first pass see the labels of earlier cards, the others those of all
cards.
-/

/-- The statement of an entry is reported for the symbols that its operands cannot see.  The labels
of all entries count for operands that wait, those of the earlier entries for the others. -/
structure SeesLabels (entries earlier : List FirstPass.Entry) (entry : FirstPass.Entry)
    (st : Statement) : Prop where
  card : st.card = entry.card
  late : st.kind = .instruction ∨ st.kind = .finish →
    st.undefinedReports = st.missingSymbols (FirstPass.binds entries)
  early : st.kind = .equate ∨ st.kind = .synonym ∨ st.kind = .origin ∨ st.kind = .blockStart ∨
      st.kind = .blockEnd ∨ st.kind = .repetition →
    st.undefinedReports = st.missingSymbols (FirstPass.binds earlier)
  unbound : st.kind = .equate ∨ st.kind = .synonym → st.undefinedReports ≠ [] →
    entry.label? = none ∧ entry.after.scope.symbols = entry.before.scope.symbols

theorem FirstPass.labelValue?_of_failed {pass : FirstPass} {st : Statement} {e : Expr}
    (hkind : st.kind = .equate ∨ st.kind = .synonym) (hexprs : st.exprs = [e])
    (hfailed : (e.eval (Scope.environment pass.location) pass.scope).1.toOption = none) :
    pass.labelValue? st = none := by
  unfold labelValue?
  split
  · rfl
  · rcases hkind with hkind | hkind <;> simp [hkind, hexprs, hfailed]

namespace Assembler

variable {asm : Assembler} {entry : FirstPass.Entry} {st : Statement}

theorem Follows.undefinedReports (h : asm.Follows entry st) (hfree : st.blocked = false)
    (hundivided : ∀ e ∈ st.exprs, e.undivided = true) (hanchor : entry.before.scope.anchor = none) :
    st.undefinedReports =
      st.missingSymbols
        (if st.kind.waits then asm.symbols else entry.before.scope.symbols).defines := by
  have hown := (FirstPass.incoming_ownReports entry.before entry.card).undefinedReports
  have hreports := h.reports hfree
  rw [Scope.evalAll_of_unanchored hanchor] at hreports
  unfold Statement.undefinedReports at hown ⊢
  rw [hreports, List.filter_append, hown, List.nil_append]
  split
  · rw [Statement.failures_of_undivided hundivided, Statement.missingSymbols_undefined]
  · rw [Statement.failures_of_undivided hundivided, Statement.missingSymbols_undefined]

theorem Follows.label?_of_failed (h : asm.Follows entry st)
    (hkind : st.kind = .equate ∨ st.kind = .synonym)
    (hanchor : entry.before.scope.anchor = none)
    (hfailed : st.failures
      (st.exprs.map (entry.before.scope.symbols.eval entry.before.location)) ≠ []) :
    entry.label? = none := by
  have harity : st.kind.arity = (1, 1) := by
    rcases hkind with hkind | hkind <;> rw [hkind] <;> rfl
  rcases h.checked.single harity with ⟨e, hexprs⟩
  have hvalue : (e.eval (Scope.environment entry.before.location)
      entry.before.scope).1.toOption = none := by
    rw [Scope.eval_of_unanchored hanchor]
    rw [hexprs] at hfailed
    cases houtcome : entry.before.scope.symbols.eval entry.before.location e with
    | ok value => simp [Statement.failures, Expr.failure?, houtcome] at hfailed
    | error error => rfl
  rw [h.part Statement.kind fun _ => rfl] at hkind
  rw [h.part Statement.exprs fun _ => rfl] at hexprs
  unfold FirstPass.Entry.label?
  rw [FirstPass.labelValue?_of_failed hkind hexprs hvalue]
  split <;> rfl

theorem Follows.seesLabels {entries earlier : List FirstPass.Entry} (h : asm.Follows entry st)
    (hfree : st.blocked = false) (hundivided : ∀ e ∈ st.exprs, e.undivided = true)
    (hcard : (Statement.classify entry.card).1 ≠ .anchor)
    (hall : ∀ name, asm.symbols.defines name = FirstPass.binds entries name)
    (hanchor : entry.before.scope.anchor = none)
    (hearlier : ∀ name, entry.before.scope.symbols.defines name = FirstPass.binds earlier name) :
    SeesLabels entries earlier entry st := by
  have hreports := h.undefinedReports hfree hundivided hanchor
  constructor
  · exact h.card
  · intro hkind
    have hwaits : st.kind.waits = true := by
      rcases hkind with hkind | hkind <;> rw [hkind] <;> rfl
    rw [hreports, if_pos hwaits, funext hall]
  · intro hkind
    have hwaits : st.kind.waits = false := by
      rcases hkind with hkind | hkind | hkind | hkind | hkind | hkind <;> rw [hkind] <;> rfl
    rw [hreports, if_neg (by simp [hwaits]), funext hearlier]
  · intro hkind hreported
    have hwaits : st.kind.waits = false := by
      rcases hkind with hkind | hkind <;> rw [hkind] <;> rfl
    rw [hreports, if_neg (by simp [hwaits]),
      ← Statement.failures_of_undivided hundivided _ entry.before.location] at hreported
    have hlabel := h.label?_of_failed hkind hanchor hreported
    have hsymbols := (h.placed.symbols hanchor hcard).2
    rw [hlabel] at hsymbols
    exact ⟨hlabel, hsymbols⟩

end Assembler

/-- Without an anchor, instructions and the end card are reported for the symbols that no card
defines, and operands of the first pass for those that no earlier card defines: one report for each
operand that has such a symbol, on the first of them.  An equation that is reported defines
nothing. -/
theorem undefined_symbols_by_pass (options : Options) (source : Text) (lines : List Text)
    (hlines : Source.lines? source = some lines)
    (hkinds : ∀ card ∈ Card.ofLines 1 lines, (Statement.classify card).1 ≠ .anchor) :
    ∃ asm, assembleSource options source = .ok asm ∧
      ∀ earlier entry later,
        options.history (Card.ofLines 1 lines) = earlier ++ entry :: later →
        ∃ st, asm.statements[earlier.length]? = some st ∧
          (st.blocked = false → (∀ e ∈ st.exprs, e.undivided = true) →
            SeesLabels (options.history (Card.ofLines 1 lines)) earlier entry st) := by
  rcases assembleSource_finished options hlines with ⟨asm, hsource, hfinished⟩
  refine ⟨asm, hsource, ?_⟩
  intro earlier entry later hsplit
  have hentry : (options.history (Card.ofLines 1 lines))[earlier.length]? = some entry := by
    rw [hsplit]
    simp
  rcases exists_right_of_forall₂ hfinished.follows hentry with ⟨st, hst, hfollows⟩
  refine ⟨st, hst, ?_⟩
  intro hfree hundivided
  have hcard : (Statement.classify entry.card).1 ≠ .anchor := by
    apply hkinds
    rw [← FirstPass.history_cards options.start (Card.ofLines 1 lines)]
    exact List.mem_map_of_mem (List.mem_of_getElem? hentry)
  have hall : ∀ name, asm.symbols.defines name =
      FirstPass.binds (options.history (Card.ofLines 1 lines)) name := by
    intro name
    rw [hfinished.symbols hkinds]
    exact FirstPass.defines_labels _ name
  rcases FirstPass.history_defines rfl hkinds hsplit with ⟨hanchor, hearlier⟩
  exact hfollows.seesLabels hfree hundivided hcard hall hanchor hearlier

/-- An instruction refers to a later card and to nothing, an equation refers to the same later card,
and a repetition fails in both of its operands. -/
theorem undefined_symbols_by_pass_forward :
    Source.lines? (.ofString "A\tCLA\tB+X*Y,B\nC\tEQU\tB\nB\tPZE\tC\n\tREP\tC+A,-D\n") =
      some [.ofString "A\tCLA\tB+X*Y,B", .ofString "C\tEQU\tB", .ofString "B\tPZE\tC",
        .ofString "\tREP\tC+A,-D"] ∧
      ∃ asm, assembleSource ⟨.zero, .absolute⟩ (.ofString
          "A\tCLA\tB+X*Y,B\nC\tEQU\tB\nB\tPZE\tC\n\tREP\tC+A,-D\n") = .ok asm ∧
        (∀ earlier entry later,
          Options.history ⟨.zero, .absolute⟩ (Card.ofLines 1
            [.ofString "A\tCLA\tB+X*Y,B", .ofString "C\tEQU\tB", .ofString "B\tPZE\tC",
              .ofString "\tREP\tC+A,-D"]) = earlier ++ entry :: later →
          ∃ st, asm.statements[earlier.length]? = some st ∧
            SeesLabels (earlier ++ entry :: later) earlier entry st) ∧
        asm.statements.map Statement.undefinedReports =
          [[⟨.error, ⟨1, 7⟩, .undefinedSymbol (.ofString "X")⟩],
            [⟨.error, ⟨2, 7⟩, .undefinedSymbol (.ofString "B")⟩],
            [⟨.error, ⟨3, 7⟩, .undefinedSymbol (.ofString "C")⟩],
            [⟨.error, ⟨4, 6⟩, .undefinedSymbol (.ofString "C")⟩,
              ⟨.error, ⟨4, 6⟩, .undefinedSymbol (.ofString "D")⟩]] := by
  refine ⟨by decide, ?_⟩
  rcases undefined_symbols_by_pass ⟨.zero, .absolute⟩ (.ofString
      "A\tCLA\tB+X*Y,B\nC\tEQU\tB\nB\tPZE\tC\n\tREP\tC+A,-D\n")
    [.ofString "A\tCLA\tB+X*Y,B", .ofString "C\tEQU\tB", .ofString "B\tPZE\tC",
      .ofString "\tREP\tC+A,-D"] (by decide) (by decide +kernel) with ⟨asm, hsource, hsees⟩
  have hgood : (assembleSource ⟨.zero, .absolute⟩ (.ofString
      "A\tCLA\tB+X*Y,B\nC\tEQU\tB\nB\tPZE\tC\n\tREP\tC+A,-D\n")).toOption.map
        (fun asm => asm.statements.all fun st => !st.blocked && st.exprs.all Expr.undivided) =
      some true := by
    decide +kernel
  have hreports : (assembleSource ⟨.zero, .absolute⟩ (.ofString
      "A\tCLA\tB+X*Y,B\nC\tEQU\tB\nB\tPZE\tC\n\tREP\tC+A,-D\n")).toOption.map
        (fun asm => asm.statements.map Statement.undefinedReports) =
      some [[⟨.error, ⟨1, 7⟩, .undefinedSymbol (.ofString "X")⟩],
        [⟨.error, ⟨2, 7⟩, .undefinedSymbol (.ofString "B")⟩],
        [⟨.error, ⟨3, 7⟩, .undefinedSymbol (.ofString "C")⟩],
        [⟨.error, ⟨4, 6⟩, .undefinedSymbol (.ofString "C")⟩,
          ⟨.error, ⟨4, 6⟩, .undefinedSymbol (.ofString "D")⟩]] := by
    decide +kernel
  rw [hsource] at hgood hreports
  have hall := List.all_eq_true.mp (Option.some.inj hgood)
  refine ⟨asm, hsource, ?_, Option.some.inj hreports⟩
  intro earlier entry later hsplit
  rcases hsees earlier entry later hsplit with ⟨st, hst, hlabels⟩
  have hstatement := hall st (List.mem_of_getElem? hst)
  simp only [Bool.and_eq_true, Bool.not_eq_true', List.all_eq_true] at hstatement
  rw [hsplit] at hlabels
  exact ⟨st, hst, hlabels hstatement.1 hstatement.2⟩

end Ibm704

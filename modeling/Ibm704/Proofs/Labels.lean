import Mathlib.Data.List.Induction
import Mathlib.Data.List.Nodup
import Ibm704.Proofs.Assembly

/-!
# Location symbols

Without an anchor, symbols are defined by the location symbols of cards and by
nothing else.  The labels of a program are these symbols with the values that
their cards give them, and the table of a finished assembler is what is left of
the labels if every symbol keeps its first one.
-/

namespace Ibm704

/-!
# Tables of labels

Definitions are added one after another, and the first of a symbol is the one that
counts.
-/

namespace SymbolTable

def defineAll (table : SymbolTable) (labels : List (Text × Word)) : SymbolTable :=
  labels.foldl (fun table label => table.define label.1 label.2) table

theorem defineAll_append (table : SymbolTable) (labels others : List (Text × Word)) :
    table.defineAll (labels ++ others) = (table.defineAll labels).defineAll others :=
  List.foldl_append

theorem lookup?_defineAll (table : SymbolTable) (labels : List (Text × Word)) (name : Text) :
    (table.defineAll labels).lookup? name = (table.lookup? name).or (labels.lookup name) := by
  induction labels generalizing table with
  | nil => exact Option.or_none.symm
  | cons label rest ih =>
      show ((table.define label.1 label.2).defineAll rest).lookup? name = _
      rw [ih, lookup?_define, Option.or_assoc, List.lookup_cons]
      by_cases h : name = label.1
      · simp [h]
      · simp [h, beq_eq_false_iff_ne.mpr h]

theorem names_defineAll_empty (labels : List (Text × Word)) :
    (empty.defineAll labels).names.Nodup ∧
      (empty.defineAll labels).names = (labels.map Prod.fst).eraseDups := by
  -- Definitions are added at the end, so the induction is on the last label.
  induction labels using List.reverseRecOn with
  | nil => exact ⟨List.nodup_nil, rfl⟩
  | append_singleton labels label ih =>
      rcases ih with ⟨hnodup, hnames⟩
      have hstep : (empty.defineAll (labels ++ [label])).names =
          ((empty.defineAll labels).define label.1 label.2).names := by
        rw [defineAll_append]
        rfl
      have hdefined : (empty.defineAll labels).defines label.1 = true ↔
          label.1 ∈ labels.map Prod.fst := by
        rw [defines_iff_mem_names, hnames, List.mem_eraseDups]
      rw [hstep, names_define, List.map_append, List.eraseDups_append, ← hnames]
      by_cases h : label.1 ∈ labels.map Prod.fst
      · have hrest : ([label.1].removeAll (labels.map Prod.fst)) = [] := by
          simpa [List.removeAll] using h
        rw [if_pos (hdefined.mpr h), List.map_singleton, hrest]
        exact ⟨hnodup, (List.append_nil _).symm⟩
      · have hrest : ([label.1].removeAll (labels.map Prod.fst)) = [label.1] := by
          simpa [List.removeAll] using h
        have hfresh : label.1 ∉ (empty.defineAll labels).names := by
          rw [hnames, List.mem_eraseDups]
          exact h
        rw [if_neg (fun hdef => h (hdefined.mp hdef)), List.map_singleton, hrest]
        refine ⟨?_, rfl⟩
        rw [← List.concat_eq_append, List.nodup_concat]
        exact ⟨hfresh, hnodup⟩

end SymbolTable

namespace Address

theorem add_last (a : Address) (n : Nat) : (a.add n).add (-1) = ofInt (a.val + n - 1) := by
  simp only [add, ofInt, mk.injEq]
  omega

end Address

/-!
# Labels of cards

Without an anchor a card changes the scope by its label only.  The table after a
history therefore holds the first labels of its cards.
-/

namespace FirstPass

def labelValue? (pass : FirstPass) (st : Statement) : Option Word :=
  if st.blocked then
    none
  else
    match st.kind with
    | .instruction | .characters | .decimal | .octal | .blockStart =>
        some (Word.ofNat st.base.val)
    | .blockEnd => some (Word.ofNat (Address.ofInt (st.base.val + st.size - 1)).val)
    | .equate | .synonym =>
        st.exprs.head?.bind fun e =>
          (e.eval (Scope.environment pass.location) pass.scope).1.toOption.map fun value =>
            Word.ofInt value.toInt
    | _ => none

theorem resolved_unanchored {pass : FirstPass} (h : pass.scope.anchor = none) (st : Statement)
    (e : Expr) : (pass.resolved st e).scope = pass.scope := by
  rw [resolved, Statement.resolve_scope, Scope.eval_of_unanchored h]

theorem resolved_statement (pass : FirstPass) (st : Statement) (e : Expr) :
    ∃ reports, (pass.resolved st e).statement = { st with reports := reports } :=
  Statement.resolve_statement st _ pass.location pass.scope e

theorem Placed.label {pass : FirstPass} {st : Statement} {result : FirstPass × Statement}
    (h : Placed pass st result) (hanchor : pass.scope.anchor = none)
    (hkind : st.kind ≠ .anchor) :
    result.1.scope =
      (pass.labelValue? result.2).elim pass.scope (pass.scope.define result.2.location) := by
  have hscope := resolved_unanchored hanchor st
  cases h with
  | idle hidle =>
      rcases hidle with h | h | h | h <;> simp [labelValue?, h]
  | words hfree hwords =>
      rcases hwords with ⟨h, _⟩ | ⟨h | h | h, _⟩ <;> simp [labelValue?, reserve, hfree, h]
  | @block e _ hfree hexprs hblock =>
      rcases resolved_statement pass st e with ⟨reports, hst⟩
      rw [hscope, hst]
      rcases hblock with ⟨h, hbinding⟩ | ⟨h, hbinding⟩
      · simp [labelValue?, reserve, hfree, h, hbinding]
      · simp [labelValue?, reserve, hfree, h, hbinding, Address.add_last]
  | @equated e value hfree hexprs hequate hvalue =>
      rcases resolved_statement pass st e with ⟨reports, hst⟩
      rw [resolved, Statement.resolve_value] at hvalue
      rw [hscope, hst]
      rcases hequate with h | h <;> simp [labelValue?, hfree, h, hexprs, hvalue]
  | @unequated e hfree hexprs hequate hvalue =>
      rcases resolved_statement pass st e with ⟨reports, hst⟩
      rw [resolved, Statement.resolve_value] at hvalue
      rw [hscope, hst]
      rcases hequate with h | h <;> simp [labelValue?, hfree, h, hexprs, hvalue]
  | @origin e hfree hexprs horigin =>
      rcases resolved_statement pass st e with ⟨reports, hst⟩
      rw [hscope, hst]
      simp [labelValue?, hfree, horigin]
  | @repetition e e' hfree hexprs hrepeat words times hwords htimes =>
      rcases resolved_statement pass st e with ⟨reports, hst⟩
      rcases resolved_statement pass { st with reports := reports } e' with ⟨reports', hst'⟩
      have htime : times = pass.resolved { st with reports := reports } e' := by
        rw [htimes, hwords, hst, hscope]
        rfl
      rw [htime, hst', resolved_unanchored hanchor]
      simp [labelValue?, reserve, hfree, hrepeat]
  | anchor _ _ hother => exact absurd hother hkind
  | finish hfree hfinish => simp [labelValue?, reserve, hfree, hfinish]
  | format hfree hformat =>
      rcases hformat with ⟨h, _⟩ | ⟨h, _⟩ <;> simp [labelValue?, setFormat, hfree, h]

def Entry.label? (entry : Entry) : Option (Text × Word) :=
  if entry.card.location.isEmpty then
    none
  else
    (entry.before.labelValue? entry.statement).map fun value => (entry.card.location, value)

theorem Entry.Placed.symbols {entry : Entry} (h : entry.Placed)
    (hanchor : entry.before.scope.anchor = none)
    (hkind : (Statement.classify entry.card).1 ≠ .anchor) :
    entry.after.scope.anchor = none ∧
      entry.after.scope.symbols = entry.before.scope.symbols.defineAll entry.label?.toList := by
  have hincoming : (entry.before.incoming entry.card).kind ≠ .anchor := by
    rw [incoming_kind, kindOf]
    split
    · simp
    · exact hkind
  have hlocation : entry.statement.location = entry.card.location :=
    (Statement.of_frame Statement.beforeSpace Statement.location (fun _ => rfl)
      (FirstPass.Placed.beforeSpace h)).trans (incoming_location entry.before entry.card)
  have hscope : entry.after.scope = (entry.before.labelValue? entry.statement).elim
      entry.before.scope (entry.before.scope.define entry.statement.location) :=
    FirstPass.Placed.label h hanchor hincoming
  rw [hscope, hlocation, label?]
  cases entry.before.labelValue? entry.statement with
  | none => simp [SymbolTable.defineAll, hanchor]
  | some value =>
      by_cases hempty : entry.card.location.isEmpty = true
      · simp [Scope.define, hempty, SymbolTable.defineAll, hanchor]
      · simp [Scope.define, hempty, SymbolTable.defineAll, hanchor]

theorem history_symbols {pass : FirstPass} {cards : List Card} (hanchor : pass.scope.anchor = none)
    (hkinds : ∀ card ∈ cards, (Statement.classify card).1 ≠ .anchor) :
    (pass.afterAll (pass.history cards)).scope.anchor = none ∧
      (pass.afterAll (pass.history cards)).scope.symbols =
        pass.scope.symbols.defineAll ((pass.history cards).filterMap Entry.label?) := by
  induction cards generalizing pass with
  | nil => exact ⟨hanchor, rfl⟩
  | cons card rest ih =>
      rcases history_cons pass card rest with ⟨entry, hhistory, hcard, hbefore, hplaced, _⟩
      rw [← hbefore] at hanchor
      rw [← hcard] at hkinds
      rcases hplaced.symbols hanchor (hkinds _ List.mem_cons_self) with ⟨hafter, hsymbols⟩
      rcases ih hafter (fun other hmem => hkinds other (List.mem_cons_of_mem _ hmem)) with
        ⟨hlast, hrest⟩
      rw [hhistory]
      refine ⟨hlast, ?_⟩
      rw [← hbefore]
      show (entry.after.afterAll (entry.after.history rest)).scope.symbols = _
      rw [hrest, hsymbols, ← SymbolTable.defineAll_append, List.filterMap_cons]
      cases entry.label? <;> rfl

def FirstLabel (entries : List Entry) (name : Text) (value : Word) : Prop :=
  ∃ earlier entry later, entries = earlier ++ entry :: later ∧
    entry.label? = some (name, value) ∧ ∀ other ∈ earlier, ∀ v, other.label? ≠ some (name, v)

theorem lookup_labels_iff {entries : List Entry} {name : Text} {value : Word} :
    (entries.filterMap Entry.label?).lookup name = some value ↔ FirstLabel entries name value := by
  rw [List.lookup_eq_some_iff]
  constructor
  · rintro ⟨before, after, hlabels, hfirst⟩
    rcases List.filterMap_eq_append_iff.mp hlabels with ⟨skipped, rest, rfl, rfl, hrest⟩
    rcases List.filterMap_eq_cons_iff.mp hrest with ⟨unlabelled, entry, later, rfl, hnone, hentry, _⟩
    refine ⟨skipped ++ unlabelled, entry, later, (List.append_assoc _ _ _).symm, hentry, ?_⟩
    intro other hmem v hother
    rcases List.mem_append.mp hmem with hskipped | hunlabelled
    · have hdiffers := hfirst (name, v) (List.mem_filterMap.mpr ⟨other, hskipped, hother⟩)
      simp at hdiffers
    · rw [hnone other hunlabelled] at hother
      cases hother
  · rintro ⟨earlier, entry, later, rfl, hentry, hfirst⟩
    refine ⟨earlier.filterMap Entry.label?, later.filterMap Entry.label?, ?_, ?_⟩
    · rw [List.filterMap_append, List.filterMap_cons, hentry]
    · intro label hmem
      rcases List.mem_filterMap.mp hmem with ⟨other, hother, hlabel⟩
      rw [bne_iff_ne]
      rintro rfl
      exact hfirst other hother label.2 hlabel

theorem history_kind {pass : FirstPass} {cards : List Card} {earlier later : List Entry}
    {entry : Entry} (hstart : pass.ended = false)
    (h : pass.history cards = earlier ++ entry :: later) :
    entry.statement.kind =
      if earlier.any (fun other => (Statement.classify other.card).1 = .finish) then .remark
      else (Statement.classify entry.card).1 := by
  have hplaced : entry.Placed := history_placed entry (by rw [h]; simp)
  have hended := history_ended h
  rw [FirstPass.Placed.kind hplaced, incoming_kind, kindOf]
  congr 1
  simpa [hstart] using hended

end FirstPass

theorem Finished.symbols {options : Options} {cards : List Card} {asm : Assembler}
    (h : Finished options cards asm)
    (hkinds : ∀ card ∈ cards, (Statement.classify card).1 ≠ .anchor) :
    asm.symbols =
      SymbolTable.empty.defineAll ((options.history cards).filterMap FirstPass.Entry.label?) := by
  have hstart : options.start.scope.anchor = none := rfl
  rcases FirstPass.history_symbols hstart hkinds with ⟨hanchor, hsymbols⟩
  have hscope : asm.first.scope = (options.lastPass cards).scope := h.run.leadsTo.fixed hanchor
  rw [Assembler.symbols, hscope]
  exact hsymbols

/-- Without an anchor, a symbol means what the first card that defines it gives to it, and the table
lists the symbols in the order of these cards.  Cards after the end card define nothing. -/
theorem symbols_by_first_labels (options : Options) (source : Text) (lines : List Text)
    (hlines : Source.lines? source = some lines)
    (hkinds : ∀ card ∈ Card.ofLines 1 lines, (Statement.classify card).1 ≠ .anchor) :
    ∃ asm, assembleSource options source = .ok asm ∧
      asm.statements.map Statement.beforeWords =
        (options.history (Card.ofLines 1 lines)).map (fun entry => entry.statement.beforeWords) ∧
      (∀ earlier entry later,
        options.history (Card.ofLines 1 lines) = earlier ++ entry :: later →
        entry.statement.kind =
          if earlier.any (fun other => (Statement.classify other.card).1 = .finish) then .remark
          else (Statement.classify entry.card).1) ∧
      (∀ name value, asm.symbols.lookup? name = some value ↔
        FirstPass.FirstLabel (options.history (Card.ofLines 1 lines)) name value) ∧
      asm.symbols.names.Nodup ∧
      asm.symbols.names = (((options.history (Card.ofLines 1 lines)).filterMap
        FirstPass.Entry.label?).map Prod.fst).eraseDups := by
  rcases assembleSource_finished options hlines with ⟨asm, hsource, hfinished⟩
  have hsymbols := hfinished.symbols hkinds
  refine ⟨asm, hsource, hfinished.kept, ?_, ?_, ?_⟩
  · intro earlier entry later hsplit
    exact FirstPass.history_kind rfl hsplit
  · intro name value
    rw [hsymbols, SymbolTable.lookup?_defineAll, ← FirstPass.lookup_labels_iff]
    rfl
  · rw [hsymbols]
    exact SymbolTable.names_defineAll_empty _

/-- A block around the top of core, a symbol that is defined twice, an equation without a value, and
a card after the end card. -/
theorem symbols_by_first_labels_around_top :
    Source.lines? (.ofString
        "A\tOCT\t1,2\nB\tBES\t3\nA\tEQU\t7\nC\tEQU\tX\nE\tSYN\tB\n\tEND\tA\nF\tPZE\n") =
      some [.ofString "A\tOCT\t1,2", .ofString "B\tBES\t3", .ofString "A\tEQU\t7",
        .ofString "C\tEQU\tX", .ofString "E\tSYN\tB", .ofString "\tEND\tA", .ofString "F\tPZE"] ∧
      ∃ asm, assembleSource ⟨.ofNat 32765, .full⟩ (.ofString
          "A\tOCT\t1,2\nB\tBES\t3\nA\tEQU\t7\nC\tEQU\tX\nE\tSYN\tB\n\tEND\tA\nF\tPZE\n") =
          .ok asm ∧
        (∀ name value, asm.symbols.lookup? name = some value ↔
          FirstPass.FirstLabel
            (Options.history ⟨.ofNat 32765, .full⟩ (Card.ofLines 1
              [.ofString "A\tOCT\t1,2", .ofString "B\tBES\t3", .ofString "A\tEQU\t7",
                .ofString "C\tEQU\tX", .ofString "E\tSYN\tB", .ofString "\tEND\tA",
                .ofString "F\tPZE"]))
            name value) ∧
        asm.symbols.names = [.ofString "A", .ofString "B", .ofString "E"] := by
  refine ⟨by decide, ?_⟩
  rcases symbols_by_first_labels ⟨.ofNat 32765, .full⟩ (.ofString
      "A\tOCT\t1,2\nB\tBES\t3\nA\tEQU\t7\nC\tEQU\tX\nE\tSYN\tB\n\tEND\tA\nF\tPZE\n")
    [.ofString "A\tOCT\t1,2", .ofString "B\tBES\t3", .ofString "A\tEQU\t7",
      .ofString "C\tEQU\tX", .ofString "E\tSYN\tB", .ofString "\tEND\tA", .ofString "F\tPZE"]
    (by decide) (by decide +kernel) with
    ⟨asm, hsource, _, _, hlookup, _, hnames⟩
  refine ⟨asm, hsource, hlookup, ?_⟩
  rw [hnames]
  decide +kernel

end Ibm704

import Ibm704.Proofs.Anchor

/-!
# Location symbols and the anchor

A location symbol means what its first card says, as long as nothing looks it up
too early.  With an anchor, an operand of the first pass that comes upon the symbol
before its card takes it, and the card is then too late.  The operands of
instructions are evaluated after the last card and never take a location symbol.
-/

namespace Ibm704

def StatementKind.namesBase : StatementKind → Bool
  | .instruction | .characters | .decimal | .octal | .blockStart => true
  | _ => false

namespace FirstPass

theorem Entry.label?_of_namesBase {entry : Entry} (hfree : entry.statement.blocked = false)
    (hkind : entry.statement.kind.namesBase = true) (hsome : entry.card.location.isEmpty = false) :
    entry.label? = some (entry.card.location, Word.ofNat entry.statement.base.val) := by
  unfold label? labelValue?
  rw [hsome, hfree]
  cases h : entry.statement.kind <;> rw [h] at hkind
  case instruction | characters | decimal | octal | blockStart => rfl
  all_goals cases hkind

theorem Entry.Placed.of_missed {entry : Entry} (h : entry.Placed) (hmissed : entry.missed ≠ []) :
    entry.before.scope.anchor.isSome ∧ entry.statement.blocked = false ∧
      (entry.statement.kind = .equate ∨ entry.statement.kind = .synonym ∨
        entry.statement.kind = .origin ∨ entry.statement.kind = .blockStart ∨
        entry.statement.kind = .blockEnd ∨ entry.statement.kind = .repetition ∨
        entry.statement.kind = .anchor) := by
  have hoperands : entry.statement.earlyOperands ≠ [] := by
    intro hnone
    apply hmissed
    rw [missed, trials, hnone]
    rfl
  have hfree : entry.statement.blocked = false ∧ entry.statement.kind.waits = false := by
    by_contra hnot
    exact hoperands (if_neg hnot)
  have harity : entry.statement.kind.arity.2 ≠ 0 := fun hzero =>
    hoperands (h.ready.toChecked.earlyOperands_of_arity hzero)
  refine ⟨?_, hfree.1, ?_⟩
  · rw [Option.isSome_iff_ne_none]
    intro hnone
    exact hmissed (h.unanchored hnone).1
  · cases hkind : entry.statement.kind <;> rw [hkind] at harity hfree
    case equate | synonym | origin | blockStart | blockEnd | repetition | anchor => simp
    case instruction | finish => cases hfree.2
    all_goals exact absurd rfl harity

theorem Entry.lookup_labelled {entry : Entry} {name : Text}
    (h : ∀ value, entry.label? ≠ some (name, value)) : entry.labelled.lookup name = none := by
  rw [List.lookup_eq_none_iff]
  intro label hlabel
  rcases List.mem_filter.mp hlabel with ⟨hlist, _⟩
  have hother := h label.2
  rw [Option.mem_toList.mp hlist] at hother
  rw [bne_iff_ne]
  rintro rfl
  exact hother rfl

theorem lookup_without_labels {entries : List Entry} {name : Text}
    (h : ∀ entry ∈ entries, ∀ value, entry.label? ≠ some (name, value)) :
    (entries.flatMap fun entry => entry.missed ++ entry.labelled).lookup name =
      (entries.flatMap Entry.missed).lookup name := by
  induction entries with
  | nil => rfl
  | cons entry rest ih =>
      have hrest := ih fun other hmem => h other (List.mem_cons_of_mem _ hmem)
      have hfirst := Entry.lookup_labelled (h entry List.mem_cons_self)
      rw [List.flatMap_cons, List.flatMap_cons, List.lookup_append, List.lookup_append,
        List.lookup_append, hfirst, hrest, Option.or_none]

theorem Linked.evaluated_lookup {pass : FirstPass} {earlier later : List Entry} {entry : Entry}
    {name : Text} (h : pass.Linked (earlier ++ entry :: later)) (hempty : pass.scope = .empty)
    (hfirst : ∀ other ∈ earlier, ∀ value, other.label? ≠ some (name, value)) :
    entry.evaluated.symbols.lookup? name =
      ((earlier ++ [entry]).flatMap Entry.missed).lookup name := by
  rcases h.append with ⟨hearlier, hbefore, _, _⟩
  have hentries := hearlier.entries
  rw [← hbefore, hempty] at hentries
  change _ = [] ++ _ at hentries
  rw [SymbolTable.lookup?, entry.gains.entries, hentries, List.nil_append, List.lookup_append,
    lookup_without_labels hfirst, List.flatMap_append, List.lookup_append, List.flatMap_singleton]

end FirstPass

theorem Finished.lookup_label {options : Options} {cards : List Card} {asm : Assembler}
    (h : Finished options cards asm) {earlier later : List FirstPass.Entry}
    {entry : FirstPass.Entry} {name : Text} {value : Word}
    (hsplit : options.history cards = earlier ++ entry :: later)
    (hlabel : entry.label? = some (name, value))
    (hfirst : ∀ other ∈ earlier, ∀ v, other.label? ≠ some (name, v)) :
    asm.symbols.lookup? name =
      (((earlier ++ [entry]).flatMap FirstPass.Entry.missed).lookup name).or (some value) := by
  have hmem : entry ∈ options.history cards := by
    rw [hsplit]
    exact List.mem_append_right _ List.mem_cons_self
  have hlinked := options.linked cards
  rw [hsplit] at hlinked
  have hplaced : entry.Placed := FirstPass.history_placed entry hmem
  have hkind : entry.statement.kind ≠ .anchor := by
    intro hkind
    rcases hplaced.scope_of_anchor hkind with ⟨_, _, hnone, _, _⟩
    rw [hlabel] at hnone
    cases hnone
  have hafter : entry.after.scope.symbols.lookup? name =
      (((earlier ++ [entry]).flatMap FirstPass.Entry.missed).lookup name).or (some value) := by
    rw [(hplaced.scope_of_other hkind).1, SymbolTable.lookup?_defineAll,
      hlinked.evaluated_lookup rfl hfirst, hlabel]
    simp
  cases hfound : entry.after.scope.symbols.lookup? name with
  | none =>
      rw [hfound] at hafter
      cases hmissed : ((earlier ++ [entry]).flatMap FirstPass.Entry.missed).lookup name <;>
        rw [hmissed] at hafter <;> cases hafter
  | some found =>
      rw [← hafter, hfound]
      have hgrows := FirstPass.history_extends options.start cards entry hmem
      exact (hgrows.trans h.run.leadsTo.grows).keeps hfound

/-!
# The symbols of a program

A symbol means what the first card that defines it says, unless an operand of the
first pass has taken it by then.
-/

def LabelsStand (options : Options) (cards : List Card) (asm : Assembler) : Prop :=
  ∀ entry ∈ options.history cards, entry.statement.blocked = false →
    entry.statement.kind.namesBase = true → entry.card.location.isEmpty = false →
    ∃ other ∈ options.history cards, ∃ value,
      other.label? = some (entry.card.location, value) ∧
        asm.symbols.lookup? entry.card.location = some value

/-- An equation takes a location symbol before its card, which then defines nothing. -/
theorem labels_missed_by_equation :
    ¬ ∀ (options : Options) (source : Text) (lines : List Text) (asm : Assembler),
      Source.lines? source = some lines → assembleSource options source = .ok asm →
      LabelsStand options (Card.ofLines 1 lines) asm := by
  intro hstand
  have hlines : Source.lines? (.ofString "\tDEF\t100\nA\tEQU\tX-X\nX\tPZE\n") =
      some [.ofString "\tDEF\t100", .ofString "A\tEQU\tX-X", .ofString "X\tPZE"] := by
    decide
  have hvalue : (assembleSource ⟨.zero, .absolute⟩
      (.ofString "\tDEF\t100\nA\tEQU\tX-X\nX\tPZE\n")).toOption.map
        (fun asm => asm.symbols.lookup? (.ofString "X")) = some (some (.ofNat 100)) := by
    decide +kernel
  have hcard : ∃ entry ∈ Options.history ⟨.zero, .absolute⟩ (Card.ofLines 1
      [.ofString "\tDEF\t100", .ofString "A\tEQU\tX-X", .ofString "X\tPZE"]),
      entry.statement.blocked = false ∧ entry.statement.kind.namesBase = true ∧
        entry.card.location = .ofString "X" := by
    decide +kernel
  have hnone : ∀ other ∈ Options.history ⟨.zero, .absolute⟩ (Card.ofLines 1
      [.ofString "\tDEF\t100", .ofString "A\tEQU\tX-X", .ofString "X\tPZE"]),
      other.label? ≠ some (.ofString "X", .ofNat 100) := by
    decide +kernel
  rcases assembleSource_finished ⟨.zero, .absolute⟩ hlines with ⟨asm, hsource, _⟩
  rw [hsource] at hvalue
  rcases hcard with ⟨entry, hmem, hfree, hkind, hname⟩
  rcases hstand _ _ _ asm hlines hsource entry hmem hfree hkind (by rw [hname]; decide) with
    ⟨other, hother, value, hlabel, hfound⟩
  rw [hname] at hlabel hfound
  have hsame : value = .ofNat 100 := Option.some.inj (hfound.symm.trans (Option.some.inj hvalue))
  exact hnone other hother (hsame ▸ hlabel)

/-- What location symbols mean if there may be an anchor. -/
structure LabelsUnlessMissed (options : Options) (cards : List Card) (asm : Assembler) : Prop where
  values : ∀ labelled ∈ options.history cards, labelled.statement.blocked = false →
    labelled.statement.kind.namesBase = true → labelled.card.location.isEmpty = false →
    ∃ earlier entry later value, options.history cards = earlier ++ entry :: later ∧
      entry.label? = some (labelled.card.location, value) ∧
      (∀ other ∈ earlier, ∀ v, other.label? ≠ some (labelled.card.location, v)) ∧
      asm.symbols.lookup? labelled.card.location =
        (((earlier ++ [entry]).flatMap FirstPass.Entry.missed).lookup
          labelled.card.location).or (some value)
  early : ∀ entry ∈ options.history cards, entry.missed ≠ [] →
    entry.before.scope.anchor.isSome ∧ entry.statement.blocked = false ∧
      (entry.statement.kind = .equate ∨ entry.statement.kind = .synonym ∨
        entry.statement.kind = .origin ∨ entry.statement.kind = .blockStart ∨
        entry.statement.kind = .blockEnd ∨ entry.statement.kind = .repetition ∨
        entry.statement.kind = .anchor)

/-- A location symbol means what its card says, unless the first pass had to know it before. -/
theorem labels_unless_missed (options : Options) (source : Text) (lines : List Text)
    (h : Source.lines? source = some lines) :
    ∃ asm, assembleSource options source = .ok asm ∧
      LabelsUnlessMissed options (Card.ofLines 1 lines) asm := by
  rcases assembleSource_finished options h with ⟨asm, hsource, hfinished⟩
  refine ⟨asm, hsource, ?_⟩
  constructor
  · intro labelled hmem hfree hkind hsome
    have hlabel := FirstPass.Entry.label?_of_namesBase hfree hkind hsome
    have hlabels := List.mem_filterMap.mpr ⟨labelled, hmem, hlabel⟩
    have hfound : (((options.history (Card.ofLines 1 lines)).filterMap
        FirstPass.Entry.label?).lookup labelled.card.location).isSome := by
      rw [List.lookup_isSome_iff]
      exact ⟨_, hlabels, beq_self_eq_true _⟩
    rcases Option.isSome_iff_exists.mp hfound with ⟨value, hvalue⟩
    rcases FirstPass.lookup_labels_iff.mp hvalue with
      ⟨earlier, entry, later, hsplit, hentry, hfirst⟩
    exact ⟨earlier, entry, later, value, hsplit, hentry, hfirst,
      hfinished.lookup_label hsplit hentry hfirst⟩
  · intro entry hmem hmissed
    exact FirstPass.Entry.Placed.of_missed (FirstPass.history_placed entry hmem) hmissed

/-- An equation misses one symbol and a block its own; the instruction comes upon its symbol too late
to miss it. -/
theorem labels_unless_missed_mixed :
    Source.lines? (.ofString
        "\tDEF\t100\nA\tEQU\tX-X\nB\tBSS\tB+1\n\tCLA\tC\nX\tPZE\nC\tPZE\n") =
      some [.ofString "\tDEF\t100", .ofString "A\tEQU\tX-X", .ofString "B\tBSS\tB+1",
        .ofString "\tCLA\tC", .ofString "X\tPZE", .ofString "C\tPZE"] ∧
      ∃ asm, assembleSource ⟨.zero, .absolute⟩ (.ofString
          "\tDEF\t100\nA\tEQU\tX-X\nB\tBSS\tB+1\n\tCLA\tC\nX\tPZE\nC\tPZE\n") = .ok asm ∧
        LabelsUnlessMissed ⟨.zero, .absolute⟩ (Card.ofLines 1
          [.ofString "\tDEF\t100", .ofString "A\tEQU\tX-X", .ofString "B\tBSS\tB+1",
            .ofString "\tCLA\tC", .ofString "X\tPZE", .ofString "C\tPZE"]) asm ∧
        ["X", "B", "C"].map (fun name => asm.symbols.lookup? (.ofString name)) =
          [some (.ofNat 100), some (.ofNat 101), some (.ofNat 104)] := by
  refine ⟨by decide, ?_⟩
  rcases labels_unless_missed ⟨.zero, .absolute⟩ (.ofString
      "\tDEF\t100\nA\tEQU\tX-X\nB\tBSS\tB+1\n\tCLA\tC\nX\tPZE\nC\tPZE\n")
    [.ofString "\tDEF\t100", .ofString "A\tEQU\tX-X", .ofString "B\tBSS\tB+1",
      .ofString "\tCLA\tC", .ofString "X\tPZE", .ofString "C\tPZE"] (by decide) with
    ⟨asm, hsource, hlabels⟩
  have hvalues : (assembleSource ⟨.zero, .absolute⟩ (.ofString
      "\tDEF\t100\nA\tEQU\tX-X\nB\tBSS\tB+1\n\tCLA\tC\nX\tPZE\nC\tPZE\n")).toOption.map
        (fun asm => ["X", "B", "C"].map fun name => asm.symbols.lookup? (.ofString name)) =
      some [some (.ofNat 100), some (.ofNat 101), some (.ofNat 104)] := by
    decide +kernel
  rw [hsource] at hvalues
  exact ⟨asm, hsource, hlabels, Option.some.inj hvalues⟩

end Ibm704

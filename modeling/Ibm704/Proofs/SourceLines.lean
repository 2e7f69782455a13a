import Ibm704.Proofs.IdleCards

/-!
# The lines of a source

A program is assembled from its source text or from the list of its lines.  Both
ways see the same cards: a source is divided where its lines were joined, and the
carriage returns at the end of a line are not on its card.  Only an empty last
line is no line of the source; as a card it is blank, and no pass does anything
with it.
-/

namespace Ibm704

/-!
# Carriage returns

Carriage returns at the end of a line are no part of its card.
-/

namespace Card

def ReturnsAdded (line marked : Text) : Prop :=
  ∃ count, marked = line ++ List.replicate count carriageReturn

theorem withoutLineEnd_append_return (line : Text) :
    withoutLineEnd (line ++ [carriageReturn]) = withoutLineEnd line := by
  unfold withoutLineEnd
  rw [List.reverse_append, List.reverse_singleton, List.singleton_append,
    List.dropWhile_cons_of_pos (by decide)]

theorem ReturnsAdded.withoutLineEnd_eq {line marked : Text} (h : ReturnsAdded line marked) :
    withoutLineEnd marked = withoutLineEnd line := by
  rcases h with ⟨count, rfl⟩
  induction count with
  | zero => rw [List.replicate_zero, List.append_nil]
  | succ count ih =>
      rw [List.replicate_succ', ← List.append_assoc, withoutLineEnd_append_return, ih]

theorem ofLine_returnsAdded {line marked : Text} (h : ReturnsAdded line marked) (number : Int) :
    ofLine number marked = ofLine number line := by
  unfold ofLine
  rw [h.withoutLineEnd_eq]

theorem ofLines_returnsAdded {lines marked : List Text}
    (h : List.Forall₂ ReturnsAdded lines marked) (number : Int) :
    ofLines number marked = ofLines number lines := by
  induction h generalizing number with
  | nil => rfl
  | cons hline _ ih => rw [ofLines, ofLines, ofLine_returnsAdded hline, ih]

theorem lineFeed_not_mem_returnsAdded {lines marked : List Text}
    (h : List.Forall₂ ReturnsAdded lines marked) (hfeed : ∀ line ∈ lines, lineFeed ∉ line) :
    ∀ line ∈ marked, lineFeed ∉ line := by
  intro line hmem hbyte
  rcases exists_left_of_forall₂ h hmem with ⟨plain, hplain, count, rfl⟩
  rcases List.mem_append.mp hbyte with hbyte | hbyte
  · exact hfeed plain hplain hbyte
  · exact absurd (List.eq_of_mem_replicate hbyte) (by decide)

theorem ofLines_append (number : Int) (lines others : List Text) :
    ofLines number (lines ++ others) =
      ofLines number lines ++ ofLines (number + lines.length) others := by
  induction lines generalizing number with
  | nil => simp [ofLines]
  | cons line rest ih =>
      rw [List.cons_append, ofLines, ofLines, ih, List.cons_append, List.length_cons]
      congr 3
      omega

theorem ofLines_length (number : Int) (lines : List Text) :
    (ofLines number lines).length = lines.length := by
  induction lines generalizing number with
  | nil => rfl
  | cons line rest ih => rw [ofLines, List.length_cons, List.length_cons, ih]

end Card

/-!
# Dividing a source

Lines without line feeds are found again in the text that joins them.
-/

namespace Source

theorem returnsAdded_dropReturn (line : Text) : Card.ReturnsAdded (dropReturn line) line := by
  unfold dropReturn
  split
  · rename_i hlast
    exact ⟨1, (List.dropLast_append_getLast? _ hlast).symm⟩
  · exact ⟨0, (List.append_nil line).symm⟩

theorem ofLines_dropReturn (number : Int) (lines : List Text) :
    Card.ofLines number (lines.map dropReturn) = Card.ofLines number lines := by
  symm
  apply Card.ofLines_returnsAdded
  rw [List.forall₂_map_left_iff]
  exact List.forall₂_same.mpr fun line _ => returnsAdded_dropReturn line

theorem rawLines_join {lines : List Text} (h : ∀ line ∈ lines, Card.lineFeed ∉ line) :
    rawLines (Text.join [Card.lineFeed] lines) =
      if lines.getLast? = some [] then lines.dropLast else lines := by
  by_cases hlines : lines = []
  · subst hlines
    rfl
  · have hpieces : (Text.join [Card.lineFeed] lines).splitOn Card.lineFeed = lines :=
      List.splitOn_intercalate Card.lineFeed h hlines
    unfold rawLines
    rw [hpieces]

end Source

theorem assembleLines_eq (options : Options) (lines : List Text) :
    assembleLines options lines = .ok (options.finished (Card.ofLines 1 lines)) :=
  options.assembleCards_eq (Card.ofLines 1 lines)

theorem assembleSource_eq (options : Options) (source : Text) :
    assembleSource options source =
      if ∀ line ∈ Source.rawLines source, line.length < Source.lineLimit then
        .ok (options.finished (Card.ofLines 1 (Source.rawLines source)))
      else .error .lineTooLong := by
  unfold assembleSource Source.lines?
  dsimp only
  by_cases hshort : ∀ line ∈ Source.rawLines source, line.length < Source.lineLimit
  · rw [if_pos hshort, if_pos (by simpa using hshort)]
    dsimp only
    rw [assembleLines_eq, Source.ofLines_dropReturn]
    rfl
  · rw [if_neg hshort, if_neg (by simpa using hshort)]

/-!
# An empty last line

An empty card at the end leaves one more statement, which has nothing in it.
-/

namespace Card

def empty (number : Int) : Card :=
  { bare number [] with blank := true }

end Card

theorem FirstPass.incoming_empty_kind (pass : FirstPass) (number : Int) :
    (pass.incoming (Card.empty number)).kind = .remark := by
  rw [incoming_kind, kindOf, Statement.classify]
  exact ite_self StatementKind.remark

theorem FirstPass.incoming_empty_reports (pass : FirstPass) (number : Int) :
    (pass.incoming (Card.empty number)).reports = [] := by
  have hst : pass.statementOf (Card.empty number) = Statement.ofCard (Card.empty number) :=
    if_neg fun h => h.2 rfl
  unfold incoming
  rw [hst]
  rfl

theorem Options.finished_statements_length (options : Options) (cards : List Card) :
    (options.finished cards).statements.length = cards.length := by
  unfold finished outcome
  rw [SecondPass.assembleAll_length, List.length_map, history_length]

theorem Options.finished_append_empty (options : Options) (cards : List Card) (number : Int) :
    options.finished (cards ++ [Card.empty number]) =
      { options.finished cards with
        statements := (options.finished cards).statements ++
          [((options.lastPass cards).incoming (Card.empty number)).wordless] } := by
  have hkind := (options.lastPass cards).incoming_empty_kind number
  rcases options.finished_insert cards [] (.inr (.inr (.inr hkind))) with
    ⟨before, after, hlength, hstatements, hfinished⟩
  rw [List.append_nil] at hstatements hfinished
  have htotal := options.finished_statements_length cards
  rw [hstatements, List.length_append, hlength] at htotal
  have hafter : after = [] := List.eq_nil_of_length_eq_zero (by omega)
  subst hafter
  rw [hfinished, hstatements, List.append_nil]

/-!
# The two ways to assemble

What is compared are symbols, reports and words; statements without words may differ
by the empty last line.
-/

namespace Assembler

def assemblies (asm : Assembler) : List (Int × Address × List Word) :=
  asm.assembled.map fun st => (st.card.number, st.base, st.emitted)

theorem assemblies_append_wordless (asm : Assembler) (st : Statement) :
    { asm with statements := asm.statements ++ [st.wordless] }.assemblies =
      asm.assemblies ++ [(st.card.number, st.base, [])] := by
  unfold assemblies assembled
  rw [List.filter_append, List.map_append]
  rfl

theorem reports_append_wordless (asm : Assembler) (st : Statement) :
    { asm with statements := asm.statements ++ [st.wordless] }.reports =
      asm.reports ++ st.reports := by
  unfold reports
  rw [List.flatMap_append, List.flatMap_singleton]
  rfl

/-- Assembled from the joined lines, a program has the symbols, reports and words that it has
here, apart from the empty words of an empty last line. -/
structure AgreesWithSource (asm : Assembler) (options : Options) (lines : List Text)
    (joined : Assembler) : Prop where
  assembles : assembleSource options (Text.join [Card.lineFeed] lines) = .ok joined
  symbols : joined.symbols = asm.symbols
  reports : joined.reports = asm.reports
  assemblies : lines.getLast? ≠ some [] → asm.assemblies = joined.assemblies
  assemblies_empty : lines.getLast? = some [] →
    asm.assemblies = joined.assemblies ++ [((lines.length : Int), joined.location, [])]

end Assembler

theorem agreesWithSource (options : Options) {lines : List Text}
    (hfeed : ∀ line ∈ lines, Card.lineFeed ∉ line)
    (hshort : ∀ line ∈ lines, line.length < Source.lineLimit) :
    ∃ joined, (options.finished (Card.ofLines 1 lines)).AgreesWithSource options lines joined := by
  by_cases hlast : lines.getLast? = some []
  · -- The empty last line is a card, but no line of the source.
    have hlines : lines = lines.dropLast ++ [[]] := (List.dropLast_append_getLast? _ hlast).symm
    generalize lines.dropLast = earlier at hlines
    subst hlines
    have hraw := Source.rawLines_join hfeed
    rw [if_pos hlast, List.dropLast_concat] at hraw
    have hcards : Card.ofLines 1 (earlier ++ [[]]) =
        Card.ofLines 1 earlier ++ [Card.empty (1 + earlier.length)] :=
      Card.ofLines_append 1 earlier [[]]
    rw [hcards, Options.finished_append_empty]
    refine ⟨options.finished (Card.ofLines 1 earlier), ?_, rfl, ?_, ?_, ?_⟩
    · rw [assembleSource_eq, hraw, if_pos]
      intro line hmem
      exact hshort line (List.mem_append_left _ hmem)
    · rw [Assembler.reports_append_wordless, FirstPass.incoming_empty_reports, List.append_nil]
    · intro hne
      exact absurd hlast hne
    · intro _
      have hnumber : (Card.empty (1 + earlier.length)).number =
          ((earlier ++ [[]]).length : Int) := by
        rw [List.length_append, Int.natCast_add]
        exact Int.add_comm 1 earlier.length
      rw [Assembler.assemblies_append_wordless, FirstPass.incoming_base, FirstPass.incoming_card,
        hnumber]
      rfl
  · have hraw := Source.rawLines_join hfeed
    rw [if_neg hlast] at hraw
    refine ⟨options.finished (Card.ofLines 1 lines), ?_, rfl, rfl, fun _ => rfl, ?_⟩
    · rw [assembleSource_eq, hraw, if_pos hshort]
    · intro h
      exact absurd h hlast

/-- Lines are assembled as their source is, whatever carriage returns stand at their ends. -/
theorem lines_and_source_agree (options : Options) {lines : List Text}
    (hlines : ∀ line ∈ lines, Card.lineFeed ∉ line ∧ line.length < Source.lineLimit) :
    ∃ asm, assembleLines options lines = .ok asm ∧
      (∃ joined, asm.AgreesWithSource options lines joined) ∧
      ∀ marked, List.Forall₂ Card.ReturnsAdded lines marked →
        assembleLines options marked = .ok asm ∧
          ((∀ line ∈ marked, line.length < Source.lineLimit) →
            ∃ joined, asm.AgreesWithSource options marked joined) := by
  have hfeed : ∀ line ∈ lines, Card.lineFeed ∉ line := fun line hmem => (hlines line hmem).1
  refine ⟨_, assembleLines_eq options lines, ?_, ?_⟩
  · exact agreesWithSource options hfeed fun line hmem => (hlines line hmem).2
  · intro marked hreturns
    have hcards := Card.ofLines_returnsAdded hreturns 1
    constructor
    · rw [assembleLines_eq, hcards]
    · intro hshort
      rw [← hcards]
      exact agreesWithSource options (Card.lineFeed_not_mem_returnsAdded hreturns hfeed) hshort

/-- Two lines, the last of them empty, and carriage returns on the first. -/
theorem lines_and_source_agree_empty_last :
    let options : Options := ⟨.ofNat 5, .absolute⟩
    let lines : List Text := [.ofString "A\tTRA\tA", []]
    let marked : List Text := [.ofString "A\tTRA\tA\r\r", []]
    (∀ line ∈ lines, Card.lineFeed ∉ line ∧ line.length < Source.lineLimit) ∧
      List.Forall₂ Card.ReturnsAdded lines marked ∧
      ∃ asm, assembleLines options lines = .ok asm ∧ assembleLines options marked = .ok asm ∧
        (∃ joined, asm.AgreesWithSource options marked joined) ∧
        asm.symbols.entries = [(.ofString "A", .ofNat 5)] ∧
        asm.statements.map (fun st => (st.base.val, st.emitted)) =
          [(5, [.ofNat 0o002000000005]), (6, [])] := by
  intro options lines marked
  have hlines : ∀ line ∈ lines, Card.lineFeed ∉ line ∧ line.length < Source.lineLimit := by decide
  have hreturns : List.Forall₂ Card.ReturnsAdded lines marked := by
    constructor
    · exact ⟨2, by decide⟩
    · constructor
      · exact ⟨0, rfl⟩
      · constructor
  rcases lines_and_source_agree options hlines with ⟨asm, hasm, _, hmarked⟩
  rcases hmarked _ hreturns with ⟨hsame, hagrees⟩
  have hvalues : (assembleLines options lines).toOption.map
      (fun asm => (asm.symbols.entries, asm.statements.map fun st => (st.base.val, st.emitted))) =
        some ([(.ofString "A", .ofNat 5)], [(5, [.ofNat 0o002000000005]), (6, [])]) := by
    decide +kernel
  rw [hasm] at hvalues
  rcases Prod.mk.inj (Option.some.inj hvalues) with ⟨hsymbols, hwords⟩
  exact ⟨hlines, hreturns, asm, hasm, hsame, hagrees (by decide), hsymbols, hwords⟩

end Ibm704

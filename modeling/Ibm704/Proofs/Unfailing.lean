import Ibm704.Listing
import Ibm704.Proofs.SegmentsInOrder

/-!
# Nothing is reached for in vain

Reading a card and its characters, and writing a listing, means taking bytes and
words at given places.  Here these are taken with the places checked, and the
outcome is that of the definitions that do not check: every place exists, as does
the segment that a word is put into.  The same holds of what the passes check
themselves, so no source makes an assembly fail: the statement is in the phase that
each step wants, its operands are there, and the copies of a repetition have a
period.
-/

namespace Ibm704

theorem mapM_of_some {α β : Type} {f : α → Option β} {g : α → β} {xs : List α}
    (h : ∀ x ∈ xs, f x = some (g x)) : xs.mapM f = some (xs.map g) := by
  induction xs with
  | nil => rfl
  | cons x rest ih =>
      have hrest := ih fun y hy => h y (List.mem_cons_of_mem x hy)
      rw [List.mapM_cons, h x List.mem_cons_self, hrest]
      rfl

/-!
# Cards

Here every place in a line is checked, and the card is read without a place that is
out of range.
-/

namespace Text

def slice? (start stop : Int) (text : Text) : Option Text :=
  if 0 ≤ start ∧ start ≤ stop ∧ stop ≤ text.length then
    some (Card.columns start.toNat stop.toNat text)
  else
    none

def blanks? (count : Int) : Option Text :=
  if 0 ≤ count then some (blanks count.toNat) else none

theorem slice?_eq {start stop : Nat} {text : Text} (hle : start ≤ stop)
    (hstop : stop ≤ text.length) : slice? start stop text = some (Card.columns start stop text) :=
  if_pos ⟨Int.natCast_nonneg start, Int.ofNat_le.mpr hle, Int.ofNat_le.mpr hstop⟩

theorem slice?_tail {first : UInt8} {rest : Text} :
    slice? 1 (first :: rest).length (first :: rest) = some rest := by
  have hslice : slice? (1 : Nat) (first :: rest).length (first :: rest) = _ :=
    slice?_eq (Nat.le_add_left 1 rest.length) (Nat.le_refl _)
  rw [Card.columns, List.take_length] at hslice
  exact hslice

end Text

namespace Card

def columns? (start stop : Nat) (text : Text) : Option Text :=
  if text.length ≤ start then some []
  else Text.slice? start (min stop text.length : Nat) text

def tabParts (text : Text) : List Text :=
  match tabbed text with
  | (first, none, _) => [first]
  | (first, some second, none) => [first, second]
  | (first, some second, some third) => [first, second, third]

def ofTabbed? (number : Int) (text : Text) : Option Card := do
  let parts := tabParts text
  let first ← parts[0]?
  if parts.length ≤ 1 then
    return { bare number text with location := first.trim }
  else
    let second ← parts[1]?
    let divided := { bare number text with
      location := first.trim, operation := second.trim, operationColumn := first.length + 2 }
    if parts.length ≤ 2 then
      return divided
    else
      let third ← parts[2]?
      return { divided with field := third, fieldColumn := first.length + second.length + 3 }

def ofLine? (number : Int) (line : Text) : Option Card :=
  let text := withoutLineEnd line
  if text.trim.isEmpty then
    some { bare number text with blank := true }
  else do
    let first ← text[0]?
    if first = star then
      let field ← Text.slice? 1 text.length text
      return { bare number text with remark := true, field := field, fieldColumn := 2 }
    else if text.contains tab then
      ofTabbed? number text
    else
      let location ← columns? 0 6 text
      let operation ← columns? 7 11 text
      let field ← columns? 11 72 text
      return { bare number text with
        location := location.trim, operation := operation.trim, field := trimEnd field }

def ofLines? (number : Int) : List Text → Option (List Card)
  | [] => some []
  | line :: rest => do
      let card ← ofLine? number line
      let cards ← ofLines? (number + 1) rest
      return card :: cards

theorem columns?_eq {start stop : Nat} (h : start ≤ stop) (text : Text) :
    columns? start stop text = some (columns start stop text) := by
  unfold columns?
  by_cases hshort : text.length ≤ start
  · rw [if_pos hshort, columns, List.take_of_length_le (Nat.le_trans hshort h),
      List.drop_eq_nil_of_le hshort]
  · rw [if_neg hshort, Text.slice?_eq (by omega) (Nat.min_le_right _ _), columns, columns]
    congr 2
    rcases Nat.le_total stop text.length with hstop | hstop
    · rw [Nat.min_eq_left hstop]
    · rw [Nat.min_eq_right hstop, List.take_length, List.take_of_length_le hstop]

theorem ofTabbed?_eq (number : Int) (text : Text) :
    ofTabbed? number text = some (ofTabbed number text) := by
  unfold ofTabbed? ofTabbed tabParts
  rcases tabbed text with ⟨first, second, third⟩
  cases second with
  | none => rfl
  | some second =>
      cases third with
      | none => rfl
      | some third => rfl

theorem ofLine?_eq (number : Int) (line : Text) :
    ofLine? number line = some (ofLine number line) := by
  unfold ofLine? ofLine
  dsimp only
  by_cases hblank : (withoutLineEnd line).trim.isEmpty = true
  · rw [if_pos hblank, if_pos hblank]
  · rw [if_neg hblank, if_neg hblank]
    cases htext : withoutLineEnd line with
    | nil =>
        rw [htext] at hblank
        exact absurd rfl hblank
    | cons first rest =>
        simp only [List.getElem?_cons_zero, List.head?_cons, Option.some.injEq, bind,
          Option.bind_some]
        by_cases hstar : first = star
        · rw [if_pos hstar, if_pos hstar, Text.slice?_tail]
          rfl
        · rw [if_neg hstar, if_neg hstar]
          by_cases htab : (first :: rest).contains tab = true
          · rw [if_pos htab, if_pos htab]
            exact ofTabbed?_eq number _
          · rw [if_neg htab, if_neg htab, columns?_eq (by decide), columns?_eq (by decide),
              columns?_eq (by decide)]
            rfl

theorem ofLines?_eq (number : Int) (lines : List Text) :
    ofLines? number lines = some (ofLines number lines) := by
  induction lines generalizing number with
  | nil => rfl
  | cons line rest ih =>
      rw [ofLines?, ofLine?_eq, ih]
      rfl

end Card

/-!
# Characters

A field is cut for words of characters without going beyond its end.
-/

namespace Statement

def divideField? (length : Nat) (field : Text) : Option (Text × Text) :=
  if length < field.length then do
    let rest ← Text.slice? length field.length field
    let operand ← Text.slice? 0 length field
    return (operand, rest)
  else
    some (field, [])

def groupsOf? (size count : Nat) (text : Text) : Option (List Text) :=
  (List.range count).mapM fun i => Text.slice? (i * size : Nat) ((i + 1) * size : Nat) text

def takeCharacters? (st : Statement) (count : Nat) (field : Text) : Option Statement := do
  let length := count * CharacterCode.perWord
  let (operand, rest) ← divideField? length field
  let padding ← Text.blanks? ((length : Int) - operand.length)
  let groups ← groupsOf? CharacterCode.perWord count (operand ++ padding)
  return { st.failAll (groups.filterMap (groupProblem? operand)) with
    operand := operand
    comment := Text.trim rest
    data := groups.map fun group => CharacterCode.pack group.chars }

def parseCharacters? (st : Statement) : Option Statement :=
  if st.card.field.isEmpty then
    st.takeCharacters? defaultCount []
  else do
    let first ← st.card.field[0]?
    let rest ← Text.slice? 1 st.card.field.length st.card.field
    match characterCount? first with
    | some count => st.takeCharacters? count rest
    | none =>
        (st.fail (.invalidCount (Char.ofNat first.toNat))).takeCharacters? defaultCount rest

def parseField? (st : Statement) : Option Statement :=
  match st.kind with
  | .characters => st.parseCharacters?
  | _ => some st.parseField

theorem groupsOf_eq (size count : Nat) (text : Text) :
    groupsOf size count text =
      (List.range count).map fun i => Card.columns (i * size) ((i + 1) * size) text := by
  induction count generalizing text with
  | zero => rfl
  | succ count ih =>
      rw [groupsOf, ih, List.range_succ_eq_map, List.map_cons, List.map_map]
      congr 1
      · simp [Card.columns]
      · apply List.map_congr_left
        intro i _
        show _ = Card.columns ((i + 1) * size) ((i + 1 + 1) * size) text
        unfold Card.columns
        rw [List.take_drop, List.drop_drop]
        rw [Nat.add_mul (i + 1) 1, Nat.add_mul i 1, Nat.one_mul, Nat.add_comm size]
        congr 2
        omega

theorem divideField?_eq (length : Nat) (field : Text) :
    divideField? length field = some (field.take length, field.drop length) := by
  unfold divideField?
  by_cases hlong : length < field.length
  · have hoperand : Text.slice? 0 length field = some (field.take length) :=
      Text.slice?_eq (Nat.zero_le _) (Nat.le_of_lt hlong)
    rw [if_pos hlong, Text.slice?_eq (Nat.le_of_lt hlong) (Nat.le_refl _), Card.columns,
      List.take_length, hoperand]
    rfl
  · have hshort := Nat.le_of_not_lt hlong
    rw [if_neg hlong, List.take_of_length_le hshort, List.drop_eq_nil_of_le hshort]

theorem groupsOf?_eq {size count : Nat} {text : Text} (h : count * size ≤ text.length) :
    groupsOf? size count text = some (groupsOf size count text) := by
  rw [groupsOf_eq]
  apply mapM_of_some
  intro i hi
  have hlast : (i + 1) * size ≤ count * size := Nat.mul_le_mul_right size (List.mem_range.mp hi)
  exact Text.slice?_eq (Nat.mul_le_mul_right size (Nat.le_succ i)) (Nat.le_trans hlast h)

theorem takeCharacters?_eq (st : Statement) (count : Nat) (field : Text) :
    st.takeCharacters? count field = some (st.takeCharacters count field) := by
  have hfits := List.length_take_le (count * CharacterCode.perWord) field
  have hpadding : Text.blanks? (((count * CharacterCode.perWord : Nat) : Int) -
        (field.take (count * CharacterCode.perWord)).length) =
      some (Text.blanks (count * CharacterCode.perWord -
        (field.take (count * CharacterCode.perWord)).length)) := by
    unfold Text.blanks?
    rw [if_pos (by omega)]
    congr 2
    omega
  have hgroups := @groupsOf?_eq CharacterCode.perWord count
    (field.take (count * CharacterCode.perWord) ++ Text.blanks (count * CharacterCode.perWord -
      (field.take (count * CharacterCode.perWord)).length)) (by
      rw [List.length_append, Text.blanks, List.length_replicate]
      omega)
  unfold takeCharacters?
  simp only [divideField?_eq, bind, Option.bind_some, hpadding, hgroups]
  rfl

theorem parseCharacters?_eq (st : Statement) : st.parseCharacters? = some st.parseCharacters := by
  unfold parseCharacters? parseCharacters
  cases st.card.field with
  | nil => exact takeCharacters?_eq st defaultCount []
  | cons first rest =>
      simp only [List.isEmpty_cons, Bool.false_eq_true, if_false, List.getElem?_cons_zero,
        Text.slice?_tail, bind, Option.bind_some]
      cases characterCount? first with
      | some count => exact takeCharacters?_eq st count rest
      | none => exact takeCharacters?_eq _ defaultCount rest

theorem parseField?_eq (st : Statement) : st.parseField? = some st.parseField := by
  unfold parseField?
  split
  · rename_i hkind
    rw [parseCharacters?_eq]
    unfold parseField
    rw [hkind]
  · rfl

/-!
# Listings

The lines of a statement are formed with the places of its words checked.
-/

def listingColumns? (st : Statement) : Option (Text × Text) :=
  if 0 < st.emitted.length then
    st.emitted[0]?.map fun w => (st.base.toText, w.toSignedOctal)
  else
    some st.listingColumns

def furtherLine (address : Address) (w : Word) : Text :=
  address.toText ++ .ofString "  " ++ w.toSignedOctal ++ .ofString "\n"

def furtherLines? (base : Address) (words : List Word) : Option Text := do
  let lines ← (List.range (words.length - 1)).mapM fun i : Nat =>
    words[i + 1]?.map (furtherLine (base.add (i + 1 : Nat)))
  return lines.flatten

def listing? (st : Statement) : Option Text := do
  let (address, w) ← st.listingColumns?
  let further ← furtherLines? st.base st.emitted
  return address ++ .ofString "  " ++ w ++ .ofString "  " ++ st.card.text ++ .ofString "\n" ++
    further ++ st.reports.flatMap fun report => indented report.toText ++ .ofString "\n"

theorem listingColumns?_eq (st : Statement) : st.listingColumns? = some st.listingColumns := by
  unfold listingColumns? listingColumns
  cases st.emitted with
  | nil => rfl
  | cons w rest => rfl

theorem furtherLines_eq (base : Address) (words : List Word) :
    furtherLines (base.add 1) words =
      ((List.range words.length).map fun i =>
        furtherLine (base.add (i + 1 : Nat)) (words.getD i .zero)).flatten := by
  induction words generalizing base with
  | nil => rfl
  | cons w rest ih =>
      have hnext : ∀ i : Nat, (base.add 1).add (i + 1 : Nat) = base.add (i + 1 + 1 : Nat) := by
        intro i
        apply Address.eq_of_val
        rw [Address.add_val_nat, Address.add_val_nat, show base.add 1 = base.add (1 : Nat) from rfl,
          Address.add_val_nat]
        unfold coreSize
        omega
      rw [furtherLines, ih, List.length_cons, List.range_succ_eq_map, List.map_cons,
        List.flatten_cons, List.map_map]
      congr 3
      funext i
      rw [hnext]
      rfl

theorem furtherLines?_eq (base : Address) (words : List Word) :
    furtherLines? base words = some (furtherLines (base.add 1) words.tail) := by
  have hlines := @mapM_of_some Nat Text
    (fun i => words[i + 1]?.map (furtherLine (base.add (i + 1 : Nat))))
    (fun i => furtherLine (base.add (i + 1 : Nat)) (words.tail.getD i .zero))
    (List.range (words.length - 1)) (by
      intro i hi
      have hlast : i + 1 < words.length := by
        have hless := List.mem_range.mp hi
        omega
      cases words with
      | nil => cases hlast
      | cons w rest =>
          have hrest : i < rest.length := Nat.lt_of_succ_lt_succ hlast
          rw [List.getElem?_cons_succ, List.tail_cons, List.getD_eq_getElem?_getD,
            List.getElem?_eq_getElem hrest]
          rfl)
  unfold furtherLines?
  rw [hlines, furtherLines_eq, List.length_tail]
  rfl

theorem listing?_eq (st : Statement) : st.listing? = some st.listing := by
  unfold listing?
  rw [listingColumns?_eq, furtherLines?_eq]
  rfl

end Statement

namespace Assembler

def listing? (asm : Assembler) : Option Text := do
  let lines ← asm.statements.mapM Statement.listing?
  return (lines ++ [asm.listingCounts] ++ asm.symbols.entries.map symbolLine).flatten

theorem listing?_eq (asm : Assembler) : asm.listing? = some asm.listing := by
  unfold listing?
  rw [mapM_of_some fun st _ => st.listing?_eq]
  rfl

end Assembler

/-!
# Phases

The steps of both passes find each statement in the phase that they ask for.
-/

namespace SecondPass

theorem assemble_phase {pass next : SecondPass} {st st' : Statement}
    (h : pass.assemble st = .ok (next, st')) : st'.phase = .assembled := by
  rcases assemble_resolves h with ⟨exprs, words, operands, rfl, rfl, _⟩
  exact Statement.resolveAll_part _ _ _ _ exprs Statement.phase fun _ _ => rfl

end SecondPass

namespace FirstPass

/-- The steps from a card to the words of its statement.  Each finds the statement in the phase
that it wants, and whatever it takes from the card or from the operands is there. -/
structure Entry.Unfailing (entry : Entry) (st : Statement) : Prop where
  first : ∃ parsed validated placed,
    (entry.before.statementOf entry.card).phase = .constructed ∧
    (entry.before.statementOf entry.card).parse = .ok parsed ∧
    Statement.parseField? { entry.before.statementOf entry.card with phase := .parsed } =
      some parsed ∧
    parsed.phase = .parsed ∧
    parsed.validate = .ok validated ∧
    validated.phase = .validated ∧
    (entry.before.takeUp entry.card).allocate validated = .ok (placed, entry.statement) ∧
    entry.after = placed.setDown ∧
    entry.statement.phase = .allocated
  second : ∃ before after : SecondPass, before.assemble entry.statement = .ok (after, st)
  phase : st.phase = .assembled
  operands : ∀ index < entry.statement.kind.arity.1, ∃ e, entry.statement.operandAt index = .ok e
  period : entry.statement.kind = .repetition → 0 < entry.statement.size →
    0 < entry.statement.period

theorem Entry.Placed.unfailing {entry : Entry} {before after : SecondPass} {st : Statement}
    (hplaced : entry.Placed) (hworked : entry.WorkedOn before after st) : entry.Unfailing st := by
  rcases hworked with ⟨⟨placed, _, hallocate, _, hafter⟩, given, _, hassemble, _⟩
  have hready := hplaced.ready
  have hfresh := (statementOf_fresh entry.before entry.card).1
  have hparsed : (Statement.parseField
      { entry.before.statementOf entry.card with phase := .parsed }).phase = .parsed :=
    congrArg Statement.phase (Statement.parseField_beforeParse _)
  constructor
  · refine ⟨_, (entry.before.statementOf entry.card).prepared, placed, hfresh, ?_,
      Statement.parseField?_eq _, hparsed, ?_, Statement.prepared_phase _, hallocate, hafter,
      hready.phase⟩
    · unfold Statement.parse Statement.advance
      rw [if_pos hfresh]
      rfl
    · unfold Statement.validate Statement.advance
      rw [if_pos hparsed]
      rfl
  · exact ⟨_, given, hassemble⟩
  · exact SecondPass.assemble_phase hassemble
  · intro index hindex
    have hlength := Nat.lt_of_lt_of_le hindex hready.least
    exact ⟨_, Statement.operandAt_of_get (List.getElem?_eq_getElem hlength)⟩
  · exact hready.period

end FirstPass

/-- A source with lines that can be read is assembled without a fault, and so are its segments and
its listing.  The cards are there with all their columns, every step on every card finds what it
reaches for, every word has a segment that it is put into, and every word of the listing is there. -/
theorem assembly_without_faults (options : Options) (source : Text)
    (h : ∀ line ∈ Source.rawLines source, line.length < 65536) :
    ∃ lines cards asm, Source.lines? source = some lines ∧ Card.ofLines? 1 lines = some cards ∧
      assembleSource options source = .ok asm ∧
      List.Forall₂ FirstPass.Entry.Unfailing (options.history cards) asm.statements ∧
      asm.segments? = some asm.segments ∧ asm.listing? = some asm.listing := by
  have hlines : Source.lines? source = some ((Source.rawLines source).map Source.dropReturn) := by
    unfold Source.lines?
    rw [if_pos]
    exact List.all_eq_true.mpr fun line hmem => decide_eq_true (h line hmem)
  rcases options.entered_finish (Card.ofLines 1 ((Source.rawLines source).map Source.dropReturn))
    with ⟨asm, hfinish, hfinished⟩
  refine ⟨_, _, asm, hlines, Card.ofLines?_eq 1 _, assembleSource_of_finish hlines hfinish, ?_,
    asm.segments?_eq, asm.listing?_eq⟩
  refine List.forall₂_iff_get.mpr ⟨hfinished.follows.length_eq, ?_⟩
  intro k hentry hstatement
  rcases Options.workedOn hfinish (List.getElem?_eq_getElem hentry) with ⟨st, hst, hworked⟩
  rcases List.getElem?_eq_some_iff.mp hst with ⟨_, rfl⟩
  exact (FirstPass.history_placed _ (List.getElem_mem hentry)).unfailing hworked

/-- Blocked cards, operands that are missing, refused or without a value, a repetition of nothing,
columns that are not there, and a card after the end. -/
theorem assembly_without_faults_crooked :
    (∀ line ∈ Source.rawLines (.ofString
        "*\n\tBCD\t3\n\tBCD\t\n\tXYZ\t1\n\tBSS\t1\n\tREP\t0,7\n\tREP\t)\nA\tEQU\n\tEND\n\tCLA"),
      line.length < 65536) ∧
      ∃ lines cards asm, Source.lines? (.ofString
          "*\n\tBCD\t3\n\tBCD\t\n\tXYZ\t1\n\tBSS\t1\n\tREP\t0,7\n\tREP\t)\nA\tEQU\n\tEND\n\tCLA") =
          some lines ∧ Card.ofLines? 1 lines = some cards ∧
        assembleSource ⟨.ofNat 40000, .full⟩ (.ofString
          "*\n\tBCD\t3\n\tBCD\t\n\tXYZ\t1\n\tBSS\t1\n\tREP\t0,7\n\tREP\t)\nA\tEQU\n\tEND\n\tCLA") =
          .ok asm ∧
        List.Forall₂ FirstPass.Entry.Unfailing (Options.history ⟨.ofNat 40000, .full⟩ cards)
          asm.statements ∧
        asm.segments? = some asm.segments ∧ asm.listing? = some asm.listing :=
  ⟨by decide, assembly_without_faults ⟨.ofNat 40000, .full⟩ _ (by decide)⟩

end Ibm704

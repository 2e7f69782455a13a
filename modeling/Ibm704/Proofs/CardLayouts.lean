import Mathlib.Data.Bool.AllAny
import Ibm704.Proofs.Glyphs
import Ibm704.Proofs.PlainText
import Ibm704.Proofs.SourceLines

/-!
# Two layouts of a card

The parts of a card can stand in fixed columns or between TABs.  The card that is
read from either line has the same parts, in other columns, so programs in the two
layouts are assembled alike and their reports differ in columns only.
-/

namespace Ibm704

/-!
# Padding

A part is filled up with blanks to the width of its columns, from which it is read
without them.
-/

namespace Text

def padded (width : Nat) (chars : List Char) : List Char :=
  chars ++ List.replicate (width - chars.length) ' '

theorem blanks_eq (count : Nat) : blanks count = ofChars (List.replicate count ' ') := by
  induction count with
  | zero => rfl
  | succ count ih =>
      rw [List.replicate_succ, ← List.singleton_append, ofChars_append, ← ih]
      rfl

theorem padRight_ofChars {chars : List Char} (h : ∀ c ∈ chars, Plain c) (width : Nat) :
    padRight width (ofChars chars) = ofChars (padded width chars) := by
  rw [padRight, glyphs_ofChars h, List.length_map, blanks_eq, padded, ofChars_append]

theorem padded_plain {chars : List Char} (h : ∀ c ∈ chars, Plain c) (width : Nat) :
    ∀ c ∈ padded width chars, Plain c := by
  intro c hmem
  rcases List.mem_append.mp hmem with hc | hc
  · exact h c hc
  · rw [List.eq_of_mem_replicate hc]
    unfold Plain
    decide

theorem trimGlyphs_append {ink blank : List Glyph} (hink : ∀ glyph ∈ ink, glyph.blank = false)
    (hblank : ∀ glyph ∈ blank, glyph.blank = true) : trimGlyphs (ink ++ blank) = ink := by
  unfold trimGlyphs
  cases ink with
  | nil => rw [List.nil_append, List.dropWhile_eq_nil_iff.mpr hblank]; rfl
  | cons glyph rest =>
      have hfirst : ¬ glyph.blank = true := by simp [hink glyph List.mem_cons_self]
      rw [List.cons_append, List.dropWhile_cons_of_neg hfirst, ← List.cons_append,
        List.reverse_append,
        List.dropWhile_append_of_pos fun other hmem => hblank other (List.mem_reverse.mp hmem),
        dropWhile_blank fun other hmem => hink other (List.mem_reverse.mp hmem),
        List.reverse_reverse]

theorem trim_padRight {chars : List Char} (h : ∀ c ∈ chars, Solid c) (width : Nat) :
    (padRight width (ofChars chars)).trim = ofChars chars := by
  have hplain : ∀ c ∈ chars, Plain c := fun c hc => (h c hc).plain
  rw [padRight_ofChars hplain, trim, glyphs_ofChars (padded_plain hplain width), padded,
    List.map_append, trimGlyphs_append, ofGlyphs_char]
  · intro glyph hmem
    rcases List.mem_map.mp hmem with ⟨c, hc, rfl⟩
    exact (h c hc).ink
  · intro glyph hmem
    rcases List.mem_map.mp hmem with ⟨c, hc, rfl⟩
    rw [List.eq_of_mem_replicate hc]
    rfl

theorem length_padRight {chars : List Char} (h : ∀ c ∈ chars, Solid c) {width : Nat}
    (hwidth : chars.length ≤ width) : (padRight width (ofChars chars)).length = width := by
  have hplain : ∀ c ∈ chars, Plain c := fun c hc => (h c hc).plain
  rw [padRight_ofChars hplain, length_ofChars (padded_plain hplain width), padded,
    List.length_append, List.length_replicate, Nat.add_sub_cancel' hwidth]

end Text

namespace Card

theorem columns_between {before part : Text} {start stop : Nat} (hstart : before.length = start)
    (hstop : start + part.length = stop) (after : Text) :
    columns start stop (before ++ (part ++ after)) = part := by
  unfold columns
  rw [← List.append_assoc, List.take_left' (by rw [List.length_append, hstart, hstop]),
    List.drop_left' hstart]

theorem columns_to_end {before part : Text} {start stop : Nat} (hstart : before.length = start)
    (hstop : start + part.length ≤ stop) : columns start stop (before ++ part) = part := by
  unfold columns
  rw [List.take_of_length_le (by rw [List.length_append, hstart]; exact hstop),
    List.drop_left' hstart]

theorem trimEnd_of_ink {text : Text} (h : ∀ glyph ∈ text.glyphs.getLast?, glyph.blank = false) :
    trimEnd text = text := by
  have hkept : text.glyphs.reverse.dropWhile Glyph.blank = text.glyphs.reverse := by
    rw [← List.head?_reverse] at h
    cases hreverse : text.glyphs.reverse with
    | nil => rfl
    | cons glyph rest =>
        rw [hreverse] at h
        exact List.dropWhile_cons_of_neg (by simp [h glyph rfl])
  unfold trimEnd
  rw [hkept, List.reverse_reverse, Text.ofGlyphs_glyphs]

/-!
# Parts

Location and operation have no blanks and fit into their columns.  The field may have
blanks within, but ends in none.
-/

/-- What stands on a card: a location and an operation of plain characters that are no blanks, and
a field that ends in no blank. -/
structure Parts where
  location : List Char
  operation : List Char
  field : Text
  location_width : location.length ≤ 6 := by decide
  location_solid : ∀ c ∈ location, Solid c := by exact List.all_iff_forall_prop.mp rfl
  location_star : location.head? ≠ some '*' := by decide
  operation_width : operation.length ≤ 4 := by decide
  operation_solid : ∀ c ∈ operation, Solid c := by exact List.all_iff_forall_prop.mp rfl
  field_width : field.length ≤ 61 := by decide
  field_clean : ∀ byte ∈ field, byte ≠ tab ∧ byte ≠ carriageReturn ∧ byte ≠ lineFeed := by
    exact List.all_iff_forall_prop.mp rfl
  field_end : ∀ glyph ∈ field.glyphs.getLast?, glyph.blank = false := by decide

namespace Parts

variable (parts : Parts)

def inColumns : Text :=
  Text.padRight 6 (.ofChars parts.location) ++ Text.blanks 1 ++
    Text.padRight 4 (.ofChars parts.operation) ++ parts.field

def withTabs : Text :=
  Text.ofChars parts.location ++ tab :: (Text.ofChars parts.operation ++ tab :: parts.field)

def card (number : Int) (text : Text) (operationColumn fieldColumn : Nat) : Card :=
  { bare number text with
    location := .ofChars parts.location
    operation := .ofChars parts.operation
    field := parts.field
    operationColumn := operationColumn
    fieldColumn := fieldColumn }

def Absent : Prop :=
  parts.location = [] ∧ parts.operation = [] ∧ parts.field = []

theorem ink_of_not_absent (h : ¬ parts.Absent) {text : Text}
    (hlocation : ∀ c ∈ parts.location, Glyph.char c ∈ text.glyphs)
    (hoperation : ∀ c ∈ parts.operation, Glyph.char c ∈ text.glyphs)
    (hfield : ∀ glyph ∈ parts.field.glyphs, glyph ∈ text.glyphs) :
    text.trim.isEmpty = false := by
  by_cases hnolocation : parts.location = []
  · by_cases hnooperation : parts.operation = []
    · have hglyphs : parts.field.glyphs ≠ [] := by
        intro hnil
        have htext := Text.ofGlyphs_glyphs parts.field
        rw [hnil] at htext
        exact h ⟨hnolocation, hnooperation, htext.symm⟩
      have hlast := List.getLast?_eq_some_getLast hglyphs
      exact Text.trim_isEmpty_of_ink (hfield _ (List.getLast_mem hglyphs))
        (parts.field_end _ hlast)
    · rcases List.exists_mem_of_ne_nil _ hnooperation with ⟨c, hc⟩
      exact Text.trim_isEmpty_of_ink (hoperation c hc) (parts.operation_solid c hc).ink
  · rcases List.exists_mem_of_ne_nil _ hnolocation with ⟨c, hc⟩
    exact Text.trim_isEmpty_of_ink (hlocation c hc) (parts.location_solid c hc).ink

/-!
# Fixed columns

A line in columns is the concatenation of the padded parts.
-/

theorem glyphs_inColumns :
    parts.inColumns.glyphs = (Text.padded 6 parts.location ++ ' ' ::
      Text.padded 4 parts.operation).map Glyph.char ++ parts.field.glyphs := by
  have hlocation : ∀ c ∈ parts.location, Plain c := fun c hc => (parts.location_solid c hc).plain
  have hoperation : ∀ c ∈ parts.operation, Plain c :=
    fun c hc => (parts.operation_solid c hc).plain
  have htext : parts.inColumns = Text.ofChars (Text.padded 6 parts.location ++ ' ' ::
      Text.padded 4 parts.operation) ++ parts.field := by
    rw [inColumns, Text.padRight_ofChars hlocation, Text.padRight_ofChars hoperation,
      ← List.singleton_append, Text.ofChars_append, Text.ofChars_append]
    simp only [List.append_assoc]
    rfl
  rw [htext, Text.glyphs_ofChars_append]
  intro c hmem
  rcases List.mem_append.mp hmem with hc | hc
  · exact Text.padded_plain hlocation 6 c hc
  · rcases List.mem_cons.mp hc with rfl | hc
    · unfold Plain
      decide
    · exact Text.padded_plain hoperation 4 c hc

theorem inColumns_clean :
    ∀ byte ∈ parts.inColumns, byte ≠ tab ∧ byte ≠ carriageReturn ∧ byte ≠ lineFeed := by
  have hblank : ∀ count, ∀ byte ∈ Text.blanks count,
      byte ≠ tab ∧ byte ≠ carriageReturn ∧ byte ≠ lineFeed := by
    intro count byte hmem
    rw [List.eq_of_mem_replicate hmem]
    decide
  intro byte hmem
  simp only [inColumns, Text.padRight, List.mem_append] at hmem
  rcases hmem with (((hmem | hmem) | hmem) | (hmem | hmem)) | hmem
  · exact solid_byte parts.location_solid hmem
  · exact hblank _ byte hmem
  · exact hblank _ byte hmem
  · exact solid_byte parts.operation_solid hmem
  · exact hblank _ byte hmem
  · exact parts.field_clean byte hmem

theorem inColumns_head : parts.inColumns.head? ≠ some star := by
  have hhead : ∀ (count : Nat) (rest : Text),
      (Text.blanks count ++ (Text.blanks 1 ++ rest)).head? = some 0x20 := by
    intro count rest
    cases count <;> rfl
  unfold inColumns Text.padRight
  simp only [List.append_assoc]
  apply head?_ne_star parts.location_solid parts.location_star
  rw [hhead]
  decide

theorem ofColumns_inColumns (number : Int) :
    ofColumns number parts.inColumns = parts.card number parts.inColumns 8 12 := by
  have hlocation := Text.length_padRight parts.location_solid parts.location_width
  have hoperation := Text.length_padRight parts.operation_solid parts.operation_width
  have hfirst : columns 0 6 parts.inColumns = Text.padRight 6 (.ofChars parts.location) := by
    unfold inColumns
    simp only [List.append_assoc]
    exact columns_between List.length_nil (by rw [hlocation]) _
  have hsecond : columns 7 11 parts.inColumns = Text.padRight 4 (.ofChars parts.operation) := by
    unfold inColumns
    rw [List.append_assoc]
    refine columns_between ?_ (by rw [hoperation]) _
    rw [List.length_append, hlocation]
    rfl
  have hthird : columns 11 72 parts.inColumns = parts.field := by
    unfold inColumns
    refine columns_to_end ?_ ?_
    · rw [List.length_append, List.length_append, hlocation, hoperation]
      rfl
    · exact Nat.add_le_add_left parts.field_width 11
  unfold ofColumns
  rw [hfirst, hsecond, hthird, Text.trim_padRight parts.location_solid,
    Text.trim_padRight parts.operation_solid, trimEnd_of_ink parts.field_end]
  rfl

theorem ofLine_inColumns (number : Int) (h : ¬ parts.Absent) :
    ofLine number parts.inColumns = parts.card number parts.inColumns 8 12 := by
  have hink : parts.inColumns.trim.isEmpty = false := by
    apply parts.ink_of_not_absent h
    · intro c hc
      rw [glyphs_inColumns]
      simp [Text.padded, hc]
    · intro c hc
      rw [glyphs_inColumns]
      simp [Text.padded, hc]
    · intro glyph hmem
      rw [glyphs_inColumns]
      exact List.mem_append_right _ hmem
  have htab : parts.inColumns.contains tab = false := by
    rw [List.contains_eq_mem, decide_eq_false_iff_not]
    intro hmem
    exact (parts.inColumns_clean tab hmem).1 rfl
  unfold ofLine
  rw [withoutLineEnd_of_clean fun byte hmem => (parts.inColumns_clean byte hmem).2]
  dsimp only
  rw [hink, if_neg Bool.false_ne_true, if_neg parts.inColumns_head, htab,
    if_neg Bool.false_ne_true, ofColumns_inColumns]

/-!
# TABs

A line with two TABs is divided at them.
-/

theorem glyphs_withTabs :
    parts.withTabs.glyphs = parts.location.map Glyph.char ++ .char '\t' ::
      (parts.operation.map Glyph.char ++ .char '\t' :: parts.field.glyphs) := by
  have htab : ∀ rest : Text, Text.glyphs (tab :: rest) = .char '\t' :: rest.glyphs := fun _ => rfl
  rw [withTabs, Text.glyphs_ofChars_append fun c hc => (parts.location_solid c hc).plain, htab,
    Text.glyphs_ofChars_append fun c hc => (parts.operation_solid c hc).plain, htab]

theorem ofLine_withTabs (number : Int) (h : ¬ parts.Absent) :
    ofLine number parts.withTabs =
      parts.card number parts.withTabs ((Text.ofChars parts.location).length + 2)
        ((Text.ofChars parts.location).length + (Text.ofChars parts.operation).length + 3) := by
  have hink : parts.withTabs.trim.isEmpty = false := by
    apply parts.ink_of_not_absent h
    · intro c hc
      rw [glyphs_withTabs]
      simp [hc]
    · intro c hc
      rw [glyphs_withTabs]
      simp [hc]
    · intro glyph hmem
      rw [glyphs_withTabs]
      simp [hmem]
  exact ofLine_tabbed number parts.location_solid parts.location_star parts.operation_solid hink
    fun byte hmem => (parts.field_clean byte hmem).2

/-!
# Both layouts

Cards that are read from the two lines differ in text and columns only.
-/

theorem ofLine_renumbered (number : Int) :
    (ofLine number parts.inColumns).renumbered id =
      (ofLine number parts.withTabs).renumbered id := by
  by_cases h : parts.Absent
  · rcases h with ⟨hlocation, hoperation, hfield⟩
    unfold inColumns withTabs
    rw [hlocation, hoperation, hfield]
    rfl
  · rw [ofLine_inColumns parts number h, ofLine_withTabs parts number h]
    rfl

theorem ofLines_renumbered (cards : List Parts) (number : Int) :
    (ofLines number (cards.map inColumns)).map (renumbered id) =
      (ofLines number (cards.map withTabs)).map (renumbered id) := by
  induction cards generalizing number with
  | nil => rfl
  | cons parts rest ih =>
      rw [List.map_cons, List.map_cons, ofLines, ofLines, List.map_cons, List.map_cons,
        ofLine_renumbered, ih]

end Parts
end Card

/-- Cards in fixed columns and cards with TABs leave the same symbols, statements, words and
segments, and reports that differ in their columns only. -/
theorem layouts_assemble_alike (options : Options) (cards : List Card.Parts) :
    ∃ asm other, assembleLines options (cards.map Card.Parts.inColumns) = .ok asm ∧
      assembleLines options (cards.map Card.Parts.withTabs) = .ok other ∧
      other.symbols = asm.symbols ∧
      other.statements.map (fun st => (st.kind, st.base, st.size, st.exprs, st.words)) =
        asm.statements.map (fun st => (st.kind, st.base, st.size, st.exprs, st.words)) ∧
      other.segments = asm.segments ∧
      other.reports.map (fun report => (report.severity, report.position.line, report.problem)) =
        asm.reports.map fun report =>
          (report.severity, report.position.line, report.problem) := by
  have hsame : (options.finished (Card.ofLines 1 (cards.map Card.Parts.withTabs))).renumbered id =
      (options.finished (Card.ofLines 1 (cards.map Card.Parts.inColumns))).renumbered id := by
    rw [← Options.finished_renumbered, ← Options.finished_renumbered,
      Card.Parts.ofLines_renumbered]
  refine ⟨_, _, assembleLines_eq options _, assembleLines_eq options _, ?_, ?_, ?_, ?_⟩
  · exact Assembler.symbols_of_renumbered hsame
  · exact Assembler.statements_of_renumbered _ (fun _ => rfl) hsame
  · exact Assembler.segments_of_renumbered hsame
  · exact Assembler.reports_of_renumbered _ (fun _ => rfl) hsame

/-- A label as wide as its columns, a symbol without a definition, which is reported in different
columns, and a field with a comment. -/
theorem layouts_assemble_alike_undefined :
    let options : Options := ⟨.ofNat 8, .full⟩
    let cards : List Card.Parts :=
      [{ location := "TABLE1".toList, operation := "BSS".toList, field := .ofString "2" },
        { location := [], operation := "CLA".toList, field := .ofString "TABLE1+1,OTHER" },
        { location := "GO".toList, operation := "TRA".toList, field := .ofString "* back" },
        { location := [], operation := "END".toList, field := .ofString "GO" }]
    cards.map Card.Parts.inColumns =
        [.ofString "TABLE1 BSS 2", .ofString "       CLA TABLE1+1,OTHER",
          .ofString "GO     TRA * back", .ofString "       END GO"] ∧
      cards.map Card.Parts.withTabs =
        [.ofString "TABLE1\tBSS\t2", .ofString "\tCLA\tTABLE1+1,OTHER",
          .ofString "GO\tTRA\t* back", .ofString "\tEND\tGO"] ∧
      ∃ asm other, assembleLines options (cards.map Card.Parts.inColumns) = .ok asm ∧
        assembleLines options (cards.map Card.Parts.withTabs) = .ok other ∧
        other.symbols = asm.symbols ∧ other.segments = asm.segments ∧
        asm.symbols.entries = [(.ofString "TABLE1", .ofNat 8), (.ofString "GO", .ofNat 11)] ∧
        asm.statements.map Statement.emitted =
          [[], [.ofNat 0o050000000011], [.ofNat 0o002000000013], [.ofNat 0o002000000013]] ∧
        asm.reports = [⟨.error, ⟨2, 12⟩, .undefinedSymbol (.ofString "OTHER")⟩] ∧
        other.reports = [⟨.error, ⟨2, 6⟩, .undefinedSymbol (.ofString "OTHER")⟩] := by
  intro options cards
  rcases layouts_assemble_alike options cards with
    ⟨asm, other, hasm, hother, hsymbols, _, hsegments, _⟩
  have hvalues : (assembleLines options (cards.map Card.Parts.inColumns)).toOption.map
      (fun asm => (asm.symbols.entries, asm.statements.map Statement.emitted, asm.reports)) =
        some ([(.ofString "TABLE1", .ofNat 8), (.ofString "GO", .ofNat 11)],
          [[], [.ofNat 0o050000000011], [.ofNat 0o002000000013], [.ofNat 0o002000000013]],
          [⟨.error, ⟨2, 12⟩, .undefinedSymbol (.ofString "OTHER")⟩]) := by
    decide +kernel
  have hreports : (assembleLines options (cards.map Card.Parts.withTabs)).toOption.map
      Assembler.reports = some [⟨.error, ⟨2, 6⟩, .undefinedSymbol (.ofString "OTHER")⟩] := by
    decide +kernel
  rw [hasm] at hvalues
  rw [hother] at hreports
  rcases Prod.mk.inj (Option.some.inj hvalues) with ⟨hentries, hrest⟩
  rcases Prod.mk.inj hrest with ⟨hwords, hcolumns⟩
  exact ⟨by decide, by decide, asm, other, hasm, hother, hsymbols, hsegments, hentries, hwords,
    hcolumns, Option.some.inj hreports⟩

end Ibm704

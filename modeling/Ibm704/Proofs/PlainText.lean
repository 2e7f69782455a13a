import Mathlib.Data.List.TakeWhile
import Ibm704.Card

/-!
# Text of plain characters

A plain character is written in one byte, so the glyphs of a text of plain
characters are these characters.  What stands on a card is read off its text
where it is plain and has no blanks.
-/

namespace Ibm704

/-!
# Plain characters

Each byte of plain text is the code of one of its characters.
-/

def Plain (c : Char) : Prop :=
  c.toNat < 0x80

structure Solid (c : Char) : Prop where
  plain : Plain c
  ink : isBlank c = false

instance (c : Char) : Decidable (Solid c) :=
  decidable_of_iff (c.toNat < 128 ∧ isBlank c = false)
    ⟨fun h => ⟨h.1, h.2⟩, fun h => ⟨h.plain, h.ink⟩⟩

theorem digit_code {c : Char} (h : c.isDigit = true) : 48 ≤ c.toNat ∧ c.toNat ≤ 57 := by
  have hdigit : c.val ≥ 48 ∧ c.val ≤ 57 := by
    simpa [Char.isDigit] using h
  exact ⟨UInt32.le_iff_toNat_le.mp hdigit.1, UInt32.le_iff_toNat_le.mp hdigit.2⟩

theorem solid_of_isDigit {c : Char} (h : c.isDigit = true) : Solid c := by
  have hcode := digit_code h
  constructor
  · unfold Plain
    omega
  · simp only [isBlank, Bool.or_eq_false_iff, Bool.and_eq_false_iff, decide_eq_false_iff_not,
      beq_eq_false_iff_ne]
    omega

namespace Text

theorem ofChar_plain {c : Char} (h : Plain c) : ofChar c = [UInt8.ofNat c.toNat] := by
  have hle : c.val.toNat ≤ 127 := Nat.le_of_lt_succ h
  unfold ofChar String.utf8EncodeChar
  rw [if_pos hle]
  rfl

theorem plain_toNat {c : Char} (h : Plain c) : (UInt8.ofNat c.toNat).toNat = c.toNat := by
  rw [UInt8.toNat_ofNat']
  exact Nat.mod_eq_of_lt (Nat.lt_trans h (by decide))

theorem leadingChar?_plain {c : Char} (h : Plain c) (rest : Text) :
    leadingChar? (UInt8.ofNat c.toNat) rest = some (c, 0) := by
  have hless : c.toNat < 0x80 := h
  have hvalid : c.toNat.isValidChar := c.valid
  have hchar : charAtLeast? 0 c.toNat = some c := by
    unfold charAtLeast?
    rw [dif_pos hvalid, if_pos (Nat.zero_le _)]
    rfl
  unfold leadingChar?
  dsimp only
  rw [plain_toNat h, if_pos hless, hchar]
  rfl

theorem ofChars_cons {c : Char} (h : Plain c) (chars : List Char) :
    ofChars (c :: chars) = UInt8.ofNat c.toNat :: ofChars chars := by
  simp only [ofChars, List.flatMap_cons, ofChar_plain h, List.cons_append, List.nil_append]

theorem ofChars_append (first second : List Char) :
    ofChars (first ++ second) = ofChars first ++ ofChars second :=
  List.flatMap_append

theorem length_ofChars {chars : List Char} (h : ∀ c ∈ chars, Plain c) :
    (ofChars chars).length = chars.length := by
  induction chars with
  | nil => rfl
  | cons c rest ih =>
      rw [ofChars_cons (h c List.mem_cons_self), List.length_cons, List.length_cons,
        ih fun other hmem => h other (List.mem_cons_of_mem c hmem)]

theorem glyphs_ofChars_append {chars : List Char} (h : ∀ c ∈ chars, Plain c) (rest : Text) :
    (ofChars chars ++ rest).glyphs = chars.map Glyph.char ++ rest.glyphs := by
  induction chars with
  | nil => rfl
  | cons c others ih =>
      have hfirst := h c List.mem_cons_self
      have hothers := ih fun other hmem => h other (List.mem_cons_of_mem c hmem)
      have hglyphs : glyphs (UInt8.ofNat c.toNat :: (ofChars others ++ rest)) =
          .char c :: (ofChars others ++ rest).glyphs := by
        unfold glyphs
        rw [glyphsAfter, leadingChar?_plain hfirst]
      rw [ofChars_cons hfirst, List.cons_append, hglyphs, hothers, List.map_cons,
        List.cons_append]

theorem glyphs_ofChars {chars : List Char} (h : ∀ c ∈ chars, Plain c) :
    (ofChars chars).glyphs = chars.map Glyph.char := by
  have happend := glyphs_ofChars_append h []
  rw [List.append_nil] at happend
  exact happend.trans (List.append_nil _)

theorem ofGlyphs_char (chars : List Char) : ofGlyphs (chars.map Glyph.char) = ofChars chars := by
  unfold ofGlyphs ofChars
  rw [List.flatMap_map]
  rfl

theorem mem_ofChars {chars : List Char} (h : ∀ c ∈ chars, Plain c) {byte : UInt8}
    (hmem : byte ∈ ofChars chars) : ∃ c ∈ chars, byte.toNat = c.toNat := by
  rcases List.mem_flatMap.mp hmem with ⟨c, hc, hbyte⟩
  rw [ofChar_plain (h c hc), List.mem_singleton] at hbyte
  rw [hbyte]
  exact ⟨c, hc, plain_toNat (h c hc)⟩

/-!
# Blanks

Text without blanks is kept whole where blanks are taken off.
-/

theorem dropWhile_blank {glyphs : List Glyph} (h : ∀ glyph ∈ glyphs, glyph.blank = false) :
    glyphs.dropWhile Glyph.blank = glyphs := by
  cases glyphs with
  | nil => rfl
  | cons glyph rest => rw [List.dropWhile_cons_of_neg (by simp [h glyph List.mem_cons_self])]

theorem trim_ofChars {chars : List Char} (h : ∀ c ∈ chars, Solid c) :
    (ofChars chars).trim = ofChars chars := by
  have hsolid : ∀ glyph ∈ chars.map Glyph.char, glyph.blank = false := by
    intro glyph hmem
    rcases List.mem_map.mp hmem with ⟨c, hc, rfl⟩
    exact (h c hc).ink
  unfold trim trimGlyphs
  rw [glyphs_ofChars fun c hc => (h c hc).plain, dropWhile_blank hsolid,
    dropWhile_blank fun glyph hmem => hsolid glyph (List.mem_reverse.mp hmem),
    List.reverse_reverse, ofGlyphs_char]

theorem mem_dropWhile_blank {glyphs : List Glyph} {glyph : Glyph} (hmem : glyph ∈ glyphs)
    (hink : glyph.blank = false) : glyph ∈ glyphs.dropWhile Glyph.blank := by
  rw [← List.takeWhile_append_dropWhile (p := Glyph.blank) (l := glyphs)] at hmem
  rcases List.mem_append.mp hmem with hblank | hrest
  · have hglyph := List.all_eq_true.mp (List.all_takeWhile (p := Glyph.blank)) glyph hblank
    rw [hink] at hglyph
    cases hglyph
  · exact hrest

theorem trim_isEmpty_of_ink {text : Text} {glyph : Glyph} (hmem : glyph ∈ text.glyphs)
    (hink : glyph.blank = false) : text.trim.isEmpty = false := by
  have hkept : glyph ∈ trimGlyphs text.glyphs := by
    unfold trimGlyphs
    rw [List.mem_reverse]
    exact mem_dropWhile_blank (List.mem_reverse.mpr (mem_dropWhile_blank hmem hink)) hink
  have hbytes : glyph.toText ≠ [] := by
    cases glyph with
    | char c => exact String.utf8EncodeChar_ne_nil
    | stray byte => exact List.cons_ne_nil byte []
  rw [List.isEmpty_eq_false_iff]
  intro hnil
  exact hbytes (List.flatMap_eq_nil_iff.mp hnil glyph hkept)

theorem exists_ink_of_trim {text : Text} (h : text.trim.isEmpty = false) :
    ∃ glyph ∈ text.glyphs, glyph.blank = false := by
  by_contra hnone
  have hblank : ∀ glyph ∈ text.glyphs, glyph.blank = true := by
    intro glyph hmem
    rw [← Bool.not_eq_false]
    intro hink
    exact hnone ⟨glyph, hmem, hink⟩
  unfold trim trimGlyphs at h
  rw [List.dropWhile_eq_nil_iff.mpr hblank] at h
  cases h

end Text

/-!
# Cards

Text without blanks is an operand without a comment.
-/

namespace Card

theorem withoutLineEnd_of_clean {line : Text}
    (h : ∀ byte ∈ line, byte ≠ carriageReturn ∧ byte ≠ lineFeed) : withoutLineEnd line = line := by
  unfold withoutLineEnd
  cases hreverse : line.reverse with
  | nil =>
      rw [List.reverse_eq_nil_iff] at hreverse
      rw [hreverse]
      rfl
  | cons byte rest =>
      have hbyte : byte ∈ line := by
        rw [← List.mem_reverse, hreverse]
        exact List.mem_cons_self
      rcases h byte hbyte with ⟨hreturn, hfeed⟩
      rw [List.dropWhile_cons_of_neg (by simp [hreturn, hfeed]), ← hreverse, List.reverse_reverse]

theorem splitComment_ofChars {chars : List Char} (h : ∀ c ∈ chars, Solid c) :
    splitComment (.ofChars chars) = (.ofChars chars, []) := by
  have hink : ∀ glyph ∈ chars.map Glyph.char, (!glyph.blank) = true := by
    intro glyph hmem
    rcases List.mem_map.mp hmem with ⟨c, hc, rfl⟩
    rw [Bool.not_eq_true']
    exact (h c hc).ink
  unfold splitComment
  dsimp only
  rw [Text.glyphs_ofChars fun c hc => (h c hc).plain, List.takeWhile_eq_self_iff.mpr hink,
    List.dropWhile_eq_nil_iff.mpr hink, Text.ofGlyphs_char]
  rfl

theorem solid_byte {chars : List Char} (h : ∀ c ∈ chars, Solid c) {byte : UInt8}
    (hmem : byte ∈ Text.ofChars chars) :
    byte ≠ tab ∧ byte ≠ carriageReturn ∧ byte ≠ lineFeed := by
  rcases Text.mem_ofChars (fun c hc => (h c hc).plain) hmem with ⟨c, hc, hbyte⟩
  have hink := (h c hc).ink
  refine ⟨?_, ?_, ?_⟩
  all_goals
    rintro rfl
    have hcode : c = Char.ofNat c.toNat := (Char.ofNat_toNat c).symm
    rw [← hbyte] at hcode
    rw [hcode] at hink
    revert hink
    decide

theorem split_at_tab {first : Text} (h : ∀ byte ∈ first, byte ≠ tab) (rest : Text) :
    (first ++ tab :: rest).takeWhile (· != tab) = first ∧
      (first ++ tab :: rest).dropWhile (· != tab) = tab :: rest := by
  have hother : ∀ byte ∈ first, (byte != tab) = true := by
    intro byte hmem
    exact bne_iff_ne.mpr (h byte hmem)
  constructor
  · rw [List.takeWhile_append_of_pos hother, List.takeWhile_cons_of_neg (by simp), List.append_nil]
  · rw [List.dropWhile_append_of_pos hother, List.dropWhile_cons_of_neg (by simp)]

/-!
# Lines with TABs

A line of two parts without blanks, with a TAB after each, is read as a card with
these parts.
-/

section Tabbed

variable {location operation : List Char} {field : Text}

theorem tabbed_clean (hlocation : ∀ c ∈ location, Solid c) (hoperation : ∀ c ∈ operation, Solid c)
    (hfield : ∀ byte ∈ field, byte ≠ carriageReturn ∧ byte ≠ lineFeed) :
    ∀ byte ∈ Text.ofChars location ++ tab :: (Text.ofChars operation ++ tab :: field),
      byte ≠ carriageReturn ∧ byte ≠ lineFeed := by
  intro byte hmem
  simp only [List.mem_append, List.mem_cons] at hmem
  rcases hmem with hmem | rfl | hmem | rfl | hmem
  · exact (solid_byte hlocation hmem).2
  · decide
  · exact (solid_byte hoperation hmem).2
  · decide
  · exact hfield byte hmem

theorem tabbed_ink (hlocation : ∀ c ∈ location, Solid c) (hoperation : ∀ c ∈ operation, Solid c)
    (hsome : operation ≠ []) :
    (Text.ofChars location ++ tab ::
      (Text.ofChars operation ++ tab :: field)).trim.isEmpty = false := by
  rcases List.exists_mem_of_ne_nil operation hsome with ⟨c, hc⟩
  have htab : Text.glyphs (tab :: (Text.ofChars operation ++ tab :: field)) =
      .char '\t' :: (operation.map Glyph.char ++ Text.glyphs (tab :: field)) := by
    rw [← Text.glyphs_ofChars_append fun c hc => (hoperation c hc).plain]
    rfl
  have hglyph : Glyph.char c ∈ (Text.ofChars location ++ tab ::
      (Text.ofChars operation ++ tab :: field)).glyphs := by
    rw [Text.glyphs_ofChars_append fun c hc => (hlocation c hc).plain, htab]
    simp [hc]
  exact Text.trim_isEmpty_of_ink hglyph (hoperation c hc).ink

theorem head?_ne_star (hlocation : ∀ c ∈ location, Solid c) (hstar : location.head? ≠ some '*')
    {rest : Text} (hrest : rest.head? ≠ some star) :
    (Text.ofChars location ++ rest).head? ≠ some star := by
  cases location with
  | nil => exact hrest
  | cons c others =>
      rw [Text.ofChars_cons (hlocation c List.mem_cons_self).plain]
      intro hhead
      have hbyte := congrArg UInt8.toNat (Option.some.inj hhead)
      rw [Text.plain_toNat (hlocation c List.mem_cons_self).plain] at hbyte
      apply hstar
      rw [List.head?_cons, ← Char.ofNat_toNat c, hbyte]
      rfl

theorem tabbed_parts (hlocation : ∀ c ∈ location, Solid c)
    (hoperation : ∀ c ∈ operation, Solid c) :
    tabbed (Text.ofChars location ++ tab :: (Text.ofChars operation ++ tab :: field)) =
      (.ofChars location, some (.ofChars operation), some field) := by
  have hfirst := split_at_tab (fun byte hmem => (solid_byte hlocation hmem).1)
    (Text.ofChars operation ++ tab :: field)
  have hsecond := split_at_tab (fun byte hmem => (solid_byte hoperation hmem).1) field
  simp only [tabbed, hfirst.1, hfirst.2, hsecond.1, hsecond.2]

theorem ofLine_tabbed (number : Int) (hlocation : ∀ c ∈ location, Solid c)
    (hstar : location.head? ≠ some '*') (hoperation : ∀ c ∈ operation, Solid c)
    (hink : (Text.ofChars location ++ tab ::
      (Text.ofChars operation ++ tab :: field)).trim.isEmpty = false)
    (hfield : ∀ byte ∈ field, byte ≠ carriageReturn ∧ byte ≠ lineFeed) :
    ofLine number (Text.ofChars location ++ tab :: (Text.ofChars operation ++ tab :: field)) =
      { bare number
          (Text.ofChars location ++ tab :: (Text.ofChars operation ++ tab :: field)) with
        location := .ofChars location
        operation := .ofChars operation
        field := field
        operationColumn := (Text.ofChars location).length + 2
        fieldColumn := (Text.ofChars location).length + (Text.ofChars operation).length + 3 } := by
  unfold ofLine
  rw [withoutLineEnd_of_clean (tabbed_clean hlocation hoperation hfield)]
  dsimp only
  rw [hink, if_neg Bool.false_ne_true, if_neg (head?_ne_star hlocation hstar (by simp [tab, star])),
    if_pos (by simp), ofTabbed, tabbed_parts hlocation hoperation]
  simp only [Text.trim_ofChars hlocation, Text.trim_ofChars hoperation]

end Tabbed

end Card
end Ibm704

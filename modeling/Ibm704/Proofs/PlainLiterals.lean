import Mathlib.Data.Nat.ModEq
import Ibm704.Proofs.Glyphs
import Ibm704.Proofs.PlainText
import Ibm704.Proofs.SignedWords
import Ibm704.Proofs.StoredWords

/-!
# Literals of digits

A literal of digits with an optional sign may have any length.  Its digits are
counted in 64 bits, which wraps around again and again, but what a word keeps of
the count is what it would keep of the number that the digits spell.  No other
text is an octal literal, and the two printed forms of a word are octal literals
of that word.
-/

namespace Ibm704

/-!
# Texts of plain characters

Where no replacement character is shown, there is no stray byte.
-/

namespace Text

theorem chars_ofChars {chars : List Char} (h : ∀ c ∈ chars, Plain c) :
    (ofChars chars).chars = chars := by
  rw [Text.chars, glyphs_ofChars h, List.map_map]
  exact List.map_id chars

theorem eq_ofChars {text : Text} (h : ∀ c ∈ text.chars, Plain c) : text = ofChars text.chars := by
  have hglyphs : ∀ glyph ∈ text.glyphs, glyph.toText = ofChar glyph.toChar := by
    intro glyph hmem
    cases glyph with
    | char c => rfl
    | stray byte =>
        have hplain : Glyph.replacement.toNat < 0x80 := h _ (List.mem_map_of_mem hmem)
        exact absurd hplain (by decide)
  calc text = text.glyphs.flatMap Glyph.toText := (ofGlyphs_glyphs text).symm
    _ = text.glyphs.flatMap fun glyph => ofChar glyph.toChar := List.flatMap_congr hglyphs
    _ = ofChars text.chars := (List.flatMap_map ..).symm

end Text

namespace Literal

/-!
# The form of a literal

A literal is an optional sign and digits, at least one.
-/

inductive Mark : Bool → List Char → Prop where
  | absent : Mark false []
  | plus : Mark false ['+']
  | minus : Mark true ['-']

structure Spells (digit : Char → Bool) (text : Text) (negative : Bool) (digits : List Char) :
    Prop where
  marked : ∃ mark, Mark negative mark ∧ text = .ofChars (mark ++ digits)
  some : digits ≠ []
  all : ∀ c ∈ digits, digit c = true

theorem Mark.plain {negative : Bool} {mark : List Char} (h : Mark negative mark) :
    ∀ c ∈ mark, Plain c := by
  cases h with
  | absent => exact List.forall_mem_nil _
  | plus
  | minus => exact List.forall_mem_singleton.mpr (Nat.lt_of_sub_ne_zero (by decide))

theorem Mark.plain_append {negative : Bool} {mark digits : List Char} (h : Mark negative mark)
    (hdigits : ∀ c ∈ digits, c.isDigit = true) : ∀ c ∈ mark ++ digits, Plain c :=
  List.forall_mem_append.mpr ⟨h.plain, fun c hmem => (solid_of_isDigit (hdigits c hmem)).plain⟩

theorem takeSign_marked (chars : List Char) :
    ∃ mark, Mark (takeSign chars).1 mark ∧ chars = mark ++ (takeSign chars).2 := by
  unfold takeSign
  split
  · exact ⟨_, .plus, rfl⟩
  · exact ⟨_, .minus, rfl⟩
  · exact ⟨_, .absent, rfl⟩

theorem splitSign_marked {chars digits : List Char} {negative : Bool}
    (h : splitSign chars = .ok (negative, digits)) :
    digits ≠ [] ∧ ∃ mark, Mark negative mark ∧ chars = mark ++ digits := by
  have hmarked := takeSign_marked chars
  unfold splitSign at h
  split at h
  · cases h
  split at h
  · cases h
  · rename_i hsign
    split at h
    · cases h
    · cases h
      rw [hsign] at hmarked
      exact ⟨List.cons_ne_nil _ _, hmarked⟩

theorem Mark.takeSign_append {negative : Bool} {mark rest : List Char} (h : Mark negative mark)
    (hfirst : ∀ c ∈ rest.head?, isSign c = false) : takeSign (mark ++ rest) = (negative, rest) := by
  cases h with
  | plus
  | minus => rfl
  | absent =>
      cases rest with
      | nil => rfl
      | cons c others =>
          have hother : c ≠ '+' ∧ c ≠ '-' := by simpa [isSign] using hfirst c rfl
          simp [takeSign, hother]

theorem splitSign_append {negative : Bool} {mark rest : List Char} (hmark : Mark negative mark)
    (hsome : rest ≠ []) (hfirst : ∀ c ∈ rest.head?, isSign c = false) :
    splitSign (mark ++ rest) = .ok (negative, rest) := by
  rcases List.exists_cons_of_ne_nil hsome with ⟨c, others, rfl⟩
  unfold splitSign
  rw [hmark.takeSign_append hfirst]
  simp [hfirst c rfl]

theorem octal_code {c : Char} (h : isOctalDigit c = true) : 48 ≤ c.toNat ∧ c.toNat ≤ 55 := by
  have hdigit : '0' ≤ c ∧ c ≤ '7' := by
    simpa [isOctalDigit] using h
  exact ⟨UInt32.le_iff_toNat_le.mp hdigit.1, UInt32.le_iff_toNat_le.mp hdigit.2⟩

theorem isDigit_of_isOctalDigit {c : Char} (h : isOctalDigit c = true) : c.isDigit = true := by
  have hcode := octal_code h
  have hdigit : c.val ≥ 48 ∧ c.val ≤ 57 :=
    ⟨UInt32.le_iff_toNat_le.mpr hcode.1,
      UInt32.le_iff_toNat_le.mpr (Nat.le_trans hcode.2 (by decide))⟩
  simpa [Char.isDigit] using hdigit

theorem isSign_of_isDigit {c : Char} (h : c.isDigit = true) : isSign c = false := by
  have hcode := digit_code h
  have hother : ∀ mark : Char, mark.toNat < 48 → c ≠ mark := by
    rintro mark hmark rfl
    omega
  simp [isSign, hother '+' (by decide), hother '-' (by decide)]

theorem Spells.splitSign_eq {digit : Char → Bool} {text : Text} {negative : Bool}
    {digits : List Char} (h : Spells digit text negative digits)
    (hdigit : ∀ c, digit c = true → c.isDigit = true) :
    splitSign text.chars = .ok (negative, digits) := by
  rcases h.marked with ⟨mark, hmark, rfl⟩
  have hdigits : ∀ c ∈ digits, c.isDigit = true := fun c hmem => hdigit c (h.all c hmem)
  rw [Text.chars_ofChars (hmark.plain_append hdigits)]
  exact splitSign_append hmark h.some fun c hmem =>
    isSign_of_isDigit (hdigits c (List.mem_of_mem_head? hmem))

/-!
# Counting digits

A count that wraps around agrees with the number that the digits spell.
-/

theorem foldl_digits_modEq {α : Type} (value : α → Nat) {step : α → Char → α} {base size : Nat}
    {digits : List Char}
    (hstep : ∀ a, ∀ c ∈ digits,
      value (step a c) ≡ base * value a + (c.toNat - '0'.toNat) [MOD size])
    (a : α) {n : Nat} (ha : value a ≡ n [MOD size]) :
    value (digits.foldl step a) ≡ Nat.ofDigitChars base digits n [MOD size] := by
  induction digits generalizing a n with
  | nil => exact ha
  | cons c rest ih =>
      rw [List.foldl_cons, Nat.ofDigitChars_cons]
      refine ih (fun b d hmem => hstep b d (List.mem_cons_of_mem c hmem)) _ ?_
      exact (hstep a c List.mem_cons_self).trans ((ha.mul_left base).add_right _)

theorem pushOctal_modEq {digits : List Char} (h : ∀ c ∈ digits, isOctalDigit c = true) :
    (pushOctal digits).toNat ≡ Nat.ofDigitChars 8 digits 0 [MOD 2 ^ 64] := by
  refine foldl_digits_modEq BitVec.toNat ?_ 0#64 rfl
  intro bits c hmem
  have hcode := octal_code (h c hmem)
  have hdigit : c.toNat - '0'.toNat < 2 ^ 3 := by
    show c.toNat - 48 < 8
    omega
  rw [BitVec.toNat_or, BitVec.toNat_shiftLeft, BitVec.toNat_ofNat, ← Nat.or_mod_two_pow,
    ← Nat.shiftLeft_add_eq_or_of_lt hdigit, Nat.shiftLeft_eq, Nat.mul_comm]
  exact Nat.mod_modEq _ _

theorem countDecimal_modEq (digits : List Char) :
    (countDecimal digits).toNat ≡ Nat.ofDigitChars 10 digits 0 [MOD 2 ^ 64] := by
  refine foldl_digits_modEq UInt64.toNat ?_ 0 rfl
  intro n c _
  rw [UInt64.toNat_add, UInt64.toNat_mul, UInt64.toNat_ofNat', Nat.mul_comm]
  exact (Nat.mod_modEq _ _).trans ((Nat.mod_modEq _ _).add (Nat.mod_modEq _ _))

/-!
# Octal literals

Octal digits are pushed into a word from the right, and a minus sign sets the sign bit
as well.
-/

def octalWord (negative : Bool) (value : Nat) : Word :=
  .ofNat (value % 2 ^ 36 ||| if negative then 2 ^ 35 else 0)

theorem checkOctal_eq_ok {digits : List Char} :
    checkOctal digits = .ok () ↔ ∀ c ∈ digits, isOctalDigit c = true := by
  induction digits with
  | nil => exact ⟨fun _ => List.forall_mem_nil _, fun _ => rfl⟩
  | cons c rest ih =>
      rw [checkOctal, List.forall_mem_cons]
      by_cases hdigit : isOctalDigit c = true
      · rw [if_pos hdigit, ih]
        exact (and_iff_right hdigit).symm
      · rw [if_neg hdigit]
        refine ⟨?_, fun h => absurd h.1 hdigit⟩
        split
        · intro h
          cases h
        · intro h
          cases h

theorem pushOctal_signed (negative : Bool) {digits : List Char}
    (h : ∀ c ∈ digits, isOctalDigit c = true) :
    (if negative then (pushOctal digits).stored.or (.make true 0) else (pushOctal digits).stored) =
      octalWord negative (Nat.ofDigitChars 8 digits 0) := by
  have hvalue : (pushOctal digits).toNat % 2 ^ 36 = Nat.ofDigitChars 8 digits 0 % 2 ^ 36 :=
    (pushOctal_modEq h).of_dvd (Nat.pow_dvd_pow 2 (by decide))
  have hstored : (pushOctal digits).stored = .ofNat (Nat.ofDigitChars 8 digits 0 % 2 ^ 36) :=
    congrArg Word.ofNat hvalue
  rw [hstored, octalWord]
  cases negative with
  | false => rw [if_neg Bool.false_ne_true, if_neg Bool.false_ne_true, Nat.or_zero]
  | true =>
      rw [if_pos rfl, if_pos rfl]
      exact congrArg Word.mk (BitVec.ofNat_or ..).symm

theorem readOctal_eq {text : Text} {negative : Bool} {digits : List Char}
    (h : Spells isOctalDigit text negative digits) :
    readOctal text = .ok (octalWord negative (Nat.ofDigitChars 8 digits 0)) := by
  rw [readOctal_eq_ok_iff, ← pushOctal_signed negative h.all]
  exact ⟨negative, digits, h.splitSign_eq fun _ => isDigit_of_isOctalDigit,
    checkOctal_eq_ok.mpr h.all, rfl⟩

theorem exists_spells_of_readOctal {text : Text} {w : Word} (h : readOctal text = .ok w) :
    ∃ negative digits, Spells isOctalDigit text negative digits := by
  rcases readOctal_eq_ok_iff.mp h with ⟨negative, digits, hsplit, hcheck, _⟩
  have hdigits := checkOctal_eq_ok.mp hcheck
  rcases splitSign_marked hsplit with ⟨hsome, mark, hmark, hchars⟩
  refine ⟨negative, digits, ⟨mark, hmark, ?_⟩, hsome, hdigits⟩
  rw [← hchars]
  apply Text.eq_ofChars
  rw [hchars]
  exact hmark.plain_append fun c hmem => isDigit_of_isOctalDigit (hdigits c hmem)

/-! # Decimal literals -/

theorem readDecimal_eq {text : Text} {negative : Bool} {digits : List Char}
    (h : Spells Char.isDigit text negative digits) :
    readDecimal text = .ok (.make negative (countDecimal digits).toNat) := by
  have hsplit := h.splitSign_eq fun _ => id
  have hletter : ∀ c ∈ digits, (c != 'B') = true := by
    intro c hmem
    rw [bne_iff_ne]
    rintro rfl
    exact absurd (h.all _ hmem) (by decide)
  have hempty : digits.isEmpty = false := by
    rw [List.isEmpty_eq_false_iff]
    exact h.some
  have hread : Mantissa.read digits = .ok ⟨digits, none, none⟩ := by
    unfold Mantissa.read
    rw [hempty, if_neg Bool.false_ne_true, List.takeWhile_eq_self_iff.mpr h.all,
      List.dropWhile_eq_nil_iff.mpr h.all]
    rfl
  simp only [readDecimal, hsplit, bind, Except.bind, List.takeWhile_eq_self_iff.mpr hletter,
    List.dropWhile_eq_nil_iff.mpr hletter, readScale?, hread]
  rfl

/-!
# Printed words

Octal digits with zeros in front spell the number, so a printed word is read back.
-/

theorem isOctalDigit_digitChar : ∀ n < 8, isOctalDigit n.digitChar = true := by
  decide

theorem isOctalDigit_of_mem_toDigits (n : Nat) : ∀ c ∈ Nat.toDigits 8 n, isOctalDigit c = true := by
  induction n using Nat.strongRecOn with
  | ind n ih =>
      rw [Nat.toDigits_eq_if (by decide)]
      split
      · rename_i hless
        exact List.forall_mem_singleton.mpr (isOctalDigit_digitChar n hless)
      · exact List.forall_mem_append.mpr ⟨ih (n / 8) (by omega),
          List.forall_mem_singleton.mpr (isOctalDigit_digitChar _ (Nat.mod_lt _ (by decide)))⟩

theorem exists_digits_of_zeroPadded (width n : Nat) :
    ∃ digits, Text.zeroPadded 8 width n = .ofChars digits ∧ digits ≠ [] ∧
      (∀ c ∈ digits, isOctalDigit c = true) ∧ Nat.ofDigitChars 8 digits 0 = n := by
  refine ⟨_, rfl, ?_, ?_, ?_⟩
  · exact List.append_ne_nil_of_right_ne_nil _ Nat.toDigits_ne_nil
  · refine List.forall_mem_append.mpr ⟨?_, isOctalDigit_of_mem_toDigits n⟩
    intro c hmem
    rw [List.eq_of_mem_replicate hmem]
    rfl
  · rw [Nat.ofDigitChars_append, Nat.ofDigitChars_replicate_zero, Nat.mul_zero,
      Nat.ofDigitChars_toDigits (by decide) (by decide)]

theorem readOctal_toOctal {w : Word} (h : w.Fits) : readOctal w.toOctal = .ok w := by
  rcases exists_digits_of_zeroPadded 12 w.stored.toNat with ⟨digits, htext, hsome, hall, hvalue⟩
  have hspells : Spells isOctalDigit w.toOctal false digits :=
    ⟨⟨[], .absent, htext⟩, hsome, hall⟩
  rw [readOctal_eq hspells, hvalue, h.stored, octalWord, if_neg Bool.false_ne_true, Nat.or_zero]
  exact congrArg Except.ok h.stored

theorem octalWord_of_parts {w : Word} (h : w.Fits) : octalWord w.negative w.magnitude = w := by
  have hless : w.toNat < 68719476736 := h
  have hmagnitude : w.magnitude = w.toNat % 34359738368 := rfl
  have hsign : w.negative = true ↔ w.toNat / 34359738368 % 2 = 1 := beq_iff_eq
  have hnumber : (w.magnitude % 2 ^ 36 ||| if w.negative then 2 ^ 35 else 0) = w.toNat % 2 ^ 36 := by
    by_cases hnegative : w.negative = true
    · have hbound : w.magnitude % 2 ^ 36 < 2 ^ 35 := by omega
      have hsum := Nat.two_pow_add_eq_or_of_lt hbound 1
      have hhigh := hsign.mp hnegative
      rw [if_pos hnegative, Nat.or_comm, ← Nat.mul_one (2 ^ 35), ← hsum]
      omega
    · have hlow := mt hsign.mpr hnegative
      rw [if_neg hnegative, Nat.or_zero]
      omega
  exact (congrArg Word.ofNat hnumber).trans h.stored

theorem readOctal_toSignedOctal {w : Word} (h : w.Fits) : readOctal w.toSignedOctal = .ok w := by
  rcases exists_digits_of_zeroPadded 12 w.magnitude with ⟨digits, htext, hsome, hall, hvalue⟩
  have hmark : Mark w.negative [if w.negative then '-' else '+'] := by
    cases w.negative with
    | false => exact .plus
    | true => exact .minus
  have hspells : Spells isOctalDigit w.toSignedOctal w.negative digits := by
    refine ⟨⟨_, hmark, ?_⟩, hsome, hall⟩
    rw [Word.toSignedOctal, htext, Text.ofChars_append]
    exact congrArg (· ++ Text.ofChars digits) (List.append_nil _).symm
  rw [readOctal_eq hspells, hvalue, octalWord_of_parts h]

/-- Digits with an optional sign are read for what they spell, however many they are.  Other texts
are no octal literals, and the printed forms of a word are read as that word. -/
theorem plain_literals_read (text : Text) (w : Word) :
    (readOctal text = .ok w ↔ ∃ negative digits, Spells isOctalDigit text negative digits ∧
      w = octalWord negative (Nat.ofDigitChars 8 digits 0)) ∧
    (∀ negative digits, Spells Char.isDigit text negative digits →
      ∃ v, readDecimal text = .ok v ∧ v.Fits ∧ v.negative = negative ∧
        v.magnitude = Nat.ofDigitChars 10 digits 0 % 2 ^ 35) ∧
    (w.toNat < 2 ^ 36 → readOctal w.toOctal = .ok w ∧ readOctal w.toSignedOctal = .ok w) := by
  refine ⟨⟨?_, ?_⟩, ?_, ?_⟩
  · intro hread
    rcases exists_spells_of_readOctal hread with ⟨negative, digits, hspells⟩
    rw [readOctal_eq hspells] at hread
    cases hread
    exact ⟨negative, digits, hspells, rfl⟩
  · rintro ⟨negative, digits, hspells, rfl⟩
    exact readOctal_eq hspells
  · intro negative digits hspells
    have hcount : (countDecimal digits).toNat ≡ Nat.ofDigitChars 10 digits 0 [MOD 2 ^ 35] :=
      (countDecimal_modEq digits).of_dvd (Nat.pow_dvd_pow 2 (by decide))
    exact ⟨_, readDecimal_eq hspells, Word.make_fits _ _, Word.make_negative _ _,
      (Word.make_magnitude _ _).trans hcount⟩
  · intro hfits
    exact ⟨readOctal_toOctal hfits, readOctal_toSignedOctal hfits⟩

/-- Digits that fill more than 64 bits, and the printed forms of minus zero. -/
theorem plain_literals_read_wrapped :
    let decimal := Text.ofString "-36893488147419103237"
    let octal := Text.ofString "-2000000000000000000000000007"
    let zero := Word.make true 0
    Spells Char.isDigit decimal true "36893488147419103237".toList ∧
      (∃ v, readDecimal decimal = .ok v ∧ v.Fits ∧ v.negative = true ∧ v.magnitude = 5) ∧
      readOctal octal = .ok (.ofNat 0o400000000007) ∧
      readOctal zero.toOctal = .ok zero ∧ readOctal zero.toSignedOctal = .ok zero := by
  intro decimal octal zero
  have hdecimal : Spells Char.isDigit decimal true "36893488147419103237".toList :=
    ⟨⟨_, .minus, by decide⟩, by decide, List.all_eq_true.mp rfl⟩
  have hoctal : Spells isOctalDigit octal true "2000000000000000000000000007".toList :=
    ⟨⟨_, .minus, by decide⟩, by decide, List.all_eq_true.mp rfl⟩
  rcases plain_literals_read decimal zero with ⟨_, hread, hprinted⟩
  exact ⟨hdecimal, hread true _ hdecimal,
    (plain_literals_read octal _).1.mpr ⟨true, _, hoctal, by decide⟩, hprinted (by decide)⟩

end Literal
end Ibm704

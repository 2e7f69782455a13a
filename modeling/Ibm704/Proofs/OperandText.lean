import Ibm704.Expr.Parser
import Ibm704.Proofs.PlainText

/-!
# Operands written in decimal

A number that is written in decimal is one token, which is read as the integer
that it spells.  Numbers with commas between them are read as so many integers.
-/

namespace Ibm704

/-!
# Tokens

The glyphs that belong to a token already only move the position.
-/

namespace Expr

theorem tokensAfter_skip (skip : Nat) (position : Position) (glyphs : List Glyph) :
    tokensAfter skip position glyphs =
      tokensAfter 0 ((glyphs.take skip).foldl Position.after position) (glyphs.drop skip) := by
  induction glyphs generalizing skip position with
  | nil => cases skip <;> rfl
  | cons glyph rest ih =>
      cases skip with
      | zero => rfl
      | succ skip =>
          rw [tokensAfter, ih]
          rfl

theorem isSymbolChar_of_isDigit {c : Char} (h : c.isDigit = true) :
    Lexeme.isSymbolChar c = true := by
  simp [Lexeme.isSymbolChar, h]

theorem isSpace_of_isSymbolChar {c : Char} (h : Lexeme.isSymbolChar c = true) :
    Lexeme.isSpace c = false := by
  rw [Bool.eq_false_iff]
  intro hspace
  simp only [Lexeme.isSpace, Bool.or_eq_true, beq_iff_eq] at hspace
  rcases hspace with (((rfl | rfl) | rfl) | rfl) | rfl <;> cases h

theorem leading?_symbol {c : Char} (h : Lexeme.isSymbolChar c = true) (rest : List Glyph) :
    Lexeme.leading? (.char c) rest =
      some (.symbol (c :: (rest.takeWhile (Glyph.holds Lexeme.isSymbolChar)).map Glyph.toChar),
        (rest.takeWhile (Glyph.holds Lexeme.isSymbolChar)).length) := by
  have hother : ∀ other : Char, Lexeme.isSymbolChar other = false → c ≠ other := by
    rintro other hnone rfl
    rw [h] at hnone
    cases hnone
  unfold Lexeme.leading?
  split
  · rename_i hglyph
    cases hglyph
  · rename_i hglyph
    cases hglyph
    exact absurd rfl (hother '*' (by decide))
  · rename_i hglyph
    cases hglyph
    exact absurd rfl (hother '+' (by decide))
  · rename_i hglyph
    cases hglyph
    exact absurd rfl (hother '-' (by decide))
  · rename_i hglyph
    cases hglyph
    exact absurd rfl (hother '/' (by decide))
  · rename_i hglyph
    cases hglyph
    rw [if_pos h]

theorem tokens_digits {c : Char} {chars : List Char} (hfirst : c.isDigit = true)
    (h : ∀ other ∈ chars, other.isDigit = true) (position : Position) :
    tokensAfter 0 position ((c :: chars).map Glyph.char) = .ok [⟨.symbol (c :: chars), position⟩] := by
  have hrun : (chars.map Glyph.char).takeWhile (Glyph.holds Lexeme.isSymbolChar) =
      chars.map Glyph.char := by
    rw [List.takeWhile_eq_self_iff]
    intro glyph hmem
    rcases List.mem_map.mp hmem with ⟨other, hother, rfl⟩
    exact isSymbolChar_of_isDigit (h other hother)
  have hspace : (Glyph.char c).holds Lexeme.isSpace = false :=
    isSpace_of_isSymbolChar (isSymbolChar_of_isDigit hfirst)
  rw [List.map_cons, tokensAfter, if_neg (by simp [hspace]),
    leading?_symbol (isSymbolChar_of_isDigit hfirst), hrun]
  dsimp only
  rw [tokensAfter_skip, List.drop_length]
  simp [tokensAfter, Except.map, Function.comp_def, Glyph.toChar]

/-!
# Numbers

Digits are read as the number that they spell.
-/

theorem parse_digits {chars : List Char} (hsome : chars ≠ [])
    (h : ∀ c ∈ chars, c.isDigit = true) :
    parse (.ofChars chars) = .ok (.int (Int64.ofNat (Nat.ofDigitChars 10 chars 0))) := by
  have hsolid : ∀ c ∈ chars, Solid c := fun c hmem => solid_of_isDigit (h c hmem)
  have hglyphs := Text.glyphs_ofChars fun c hmem => (hsolid c hmem).plain
  have htrim := Text.trim_ofChars hsolid
  rcases List.exists_cons_of_ne_nil hsome with ⟨c, others, rfl⟩
  have hfirst := h c List.mem_cons_self
  have hbytes : (Text.ofChars (c :: others)).isEmpty = false := by
    rw [Text.ofChars_cons (hsolid c List.mem_cons_self).plain]
    rfl
  have htokens := tokens_digits hfirst (fun other hmem => h other (List.mem_cons_of_mem c hmem))
    .start
  have hall : (c :: others).all Char.isDigit = true := List.all_eq_true.mpr h
  unfold parse tokens
  rw [htrim, hbytes, if_neg Bool.false_ne_true, hglyphs, htokens]
  simp only [Except.bind, parseTokens, atom?, ofSymbol, hall, if_true]
  rfl

theorem isDigit_of_mem_decimal {n : Nat} {c : Char} (h : c ∈ Nat.toDigits 10 n) :
    c.isDigit = true :=
  Nat.isDigit_of_mem_toDigits (by decide) (by decide) h

theorem parse_decimal (n : Nat) : parse (Text.decimal n) = .ok (.int (Int64.ofNat n)) := by
  have hread := parse_digits (Nat.toDigits_ne_nil (n := n) (b := 10))
    fun _ => isDigit_of_mem_decimal
  rw [Nat.ofDigitChars_ten_toDigits] at hread
  exact hread

/-!
# Numbers between commas

A field of numbers is read as these numbers.
-/

def decimalOperands (numbers : List Nat) : Text :=
  Text.join (.ofString ",") (numbers.map Text.decimal)

def operandChars (numbers : List Nat) : List Char :=
  [','].intercalate (numbers.map (Nat.toDigits 10))

theorem decimalOperands_eq (numbers : List Nat) :
    decimalOperands numbers = .ofChars (operandChars numbers) := by
  induction numbers with
  | nil => rfl
  | cons n rest ih =>
      cases rest with
      | nil => simp [decimalOperands, operandChars, Text.join, Text.decimal, Text.digits]
      | cons m others =>
          simp only [decimalOperands, operandChars, Text.join, List.map_cons, List.intercalate,
            List.intersperse_cons_cons, List.flatten_cons] at ih ⊢
          rw [ih, Text.ofChars_append, Text.ofChars_append]
          rfl

theorem operandChars_solid (numbers : List Nat) : ∀ c ∈ operandChars numbers, Solid c := by
  induction numbers with
  | nil =>
      intro c hmem
      cases hmem
  | cons n rest ih =>
      intro c hmem
      have hdigit : c ∈ Nat.toDigits 10 n → Solid c :=
        fun hc => solid_of_isDigit (isDigit_of_mem_decimal hc)
      cases rest with
      | nil => exact hdigit (by simpa [operandChars] using hmem)
      | cons m others =>
          simp only [operandChars, List.map_cons, List.intercalate_cons_cons,
            List.mem_append] at hmem ih
          rcases hmem with (hc | hc) | hc
          · exact hdigit hc
          · rw [List.mem_singleton.mp hc]
            exact ⟨by unfold Plain; decide, by decide⟩
          · exact ih c hc

theorem items_decimalOperands {numbers : List Nat} (h : numbers ≠ []) :
    items (decimalOperands numbers) = numbers.map Text.decimal := by
  apply List.splitOn_intercalate
  · intro part hmem hcomma
    rcases List.mem_map.mp hmem with ⟨n, _, rfl⟩
    have hplain : ∀ c ∈ Nat.toDigits 10 n, Plain c :=
      fun c hc => (solid_of_isDigit (isDigit_of_mem_decimal hc)).plain
    rcases Text.mem_ofChars hplain hcomma with ⟨c, hc, hcode⟩
    have hdigit := digit_code (isDigit_of_mem_decimal hc)
    rw [← hcode] at hdigit
    exact absurd hdigit (by decide)
  · simpa using h

theorem parseItems_decimalOperands {numbers : List Nat} (h : numbers ≠ []) :
    parseItems (decimalOperands numbers) = numbers.map fun n => .ok (.int (Int64.ofNat n)) := by
  calc parseItems (decimalOperands numbers)
      = numbers.zipIdx.map fun entry => .ok (.int (Int64.ofNat entry.1)) := by
        unfold parseItems
        rw [items_decimalOperands h, List.zipIdx_map, List.map_map]
        refine List.map_congr_left ?_
        intro entry _
        simp only [Function.comp_apply, Prod.map, parse_decimal]
        rfl
    _ = (numbers.zipIdx.map Prod.fst).map fun n => .ok (.int (Int64.ofNat n)) := by
        rw [List.map_map]
        rfl
    _ = numbers.map fun n => .ok (.int (Int64.ofNat n)) := by
        rw [List.zipIdx_map_fst]

end Expr
end Ibm704

import Ibm704.Proofs.Glyphs
import Ibm704.Proofs.OperandText

/-!
# How an operand divides into tokens

A text divides into white space and tokens if it is written with them, a symbol
reaches as far as its characters do, and no single star stands before a star.  The
tokens that are found in a text are those of such a division, and there is an
error if the text has none.
-/

namespace Ibm704
namespace Expr

/-!
# Divisions

A text is cut into pieces, each a character of white space or a token, where every
token is as long as it can be.
-/

namespace Lexeme

def chars : Lexeme → List Char
  | zero => ['*', '*']
  | plus => ['+']
  | minus => ['-']
  | star => ['*']
  | slash => ['/']
  | symbol chars => chars

def EndsBefore (next : Option Char) : Lexeme → Prop
  | symbol chars =>
      chars ≠ [] ∧ (∀ c ∈ chars, isSymbolChar c = true) ∧ ∀ c ∈ next, isSymbolChar c = false
  | star => next ≠ some '*'
  | _ => True

end Lexeme

inductive Piece where
  | space (c : Char)
  | token (lexeme : Lexeme)
  deriving DecidableEq, Repr

namespace Piece

def chars : Piece → List Char
  | space c => [c]
  | token lexeme => lexeme.chars

def lexeme? : Piece → Option Lexeme
  | space _ => none
  | token lexeme => some lexeme

end Piece

def spelling (pieces : List Piece) : List Char :=
  pieces.flatMap Piece.chars

def lexemes (pieces : List Piece) : List Lexeme :=
  pieces.filterMap Piece.lexeme?

/-- The pieces are those into which the text that they spell divides. -/
def Divided : List Piece → Prop
  | [] => True
  | .space c :: rest => Lexeme.isSpace c = true ∧ Divided rest
  | .token lexeme :: rest => lexeme.EndsBefore (spelling rest).head? ∧ Divided rest

/-!
# Leading tokens

The leading token has its characters from the text, and ends where the rest begins.
-/

theorem takeWhile_symbol {run tail : List Char}
    (hrun : ∀ c ∈ run, Lexeme.isSymbolChar c = true)
    (htail : ∀ c ∈ tail.head?, Lexeme.isSymbolChar c = false) :
    ((run ++ tail).map Glyph.char).takeWhile (Glyph.holds Lexeme.isSymbolChar) =
      run.map Glyph.char := by
  have hall : ∀ glyph ∈ run.map Glyph.char, glyph.holds Lexeme.isSymbolChar = true := by
    intro glyph hmem
    rcases List.mem_map.mp hmem with ⟨c, hc, rfl⟩
    exact hrun c hc
  have hnone : (tail.map Glyph.char).takeWhile (Glyph.holds Lexeme.isSymbolChar) = [] := by
    cases tail with
    | nil => rfl
    | cons c others =>
        apply List.takeWhile_cons_of_neg
        simp [Glyph.holds, htail c rfl]
  rw [List.map_append, List.takeWhile_append_of_pos hall, hnone, List.append_nil]

theorem leading?_star {rest : List Glyph} (h : rest.head? ≠ some (.char '*')) :
    Lexeme.leading? (.char '*') rest = some (.star, 0) := by
  unfold Lexeme.leading?
  exact if_neg h

theorem leading?_of_endsBefore {lexeme : Lexeme} {tail : List Char}
    (h : lexeme.EndsBefore tail.head?) :
    ∃ c others, lexeme.chars = c :: others ∧ Lexeme.isSpace c = false ∧
      Lexeme.leading? (.char c) ((others ++ tail).map Glyph.char) =
        some (lexeme, others.length) := by
  cases lexeme with
  | zero => exact ⟨'*', ['*'], rfl, rfl, rfl⟩
  | plus => exact ⟨'+', [], rfl, rfl, rfl⟩
  | minus => exact ⟨'-', [], rfl, rfl, rfl⟩
  | slash => exact ⟨'/', [], rfl, rfl, rfl⟩
  | star =>
      refine ⟨'*', [], rfl, rfl, leading?_star ?_⟩
      rw [List.nil_append, List.head?_map]
      intro hstar
      rcases Option.map_eq_some_iff.mp hstar with ⟨c, hc, hglyph⟩
      cases hglyph
      exact h hc
  | symbol chars =>
      rcases h with ⟨hsome, hchars, hnext⟩
      rcases List.exists_cons_of_ne_nil hsome with ⟨c, others, rfl⟩
      have hfirst := hchars c List.mem_cons_self
      refine ⟨c, others, rfl, isSpace_of_isSymbolChar hfirst, ?_⟩
      have hrun : ((others ++ tail).map Glyph.char).takeWhile (Glyph.holds Lexeme.isSymbolChar) =
          others.map Glyph.char := by
        apply takeWhile_symbol
        · intro other hmem
          exact hchars other (List.mem_cons_of_mem c hmem)
        · exact hnext
      rw [leading?_symbol hfirst, hrun, List.map_map, List.length_map]
      simp [Function.comp_def, Glyph.toChar]

theorem symbol_run {rest : List Glyph} {tail : List Char}
    (h : rest.drop (rest.takeWhile (Glyph.holds Lexeme.isSymbolChar)).length =
      tail.map Glyph.char) :
    rest = ((rest.takeWhile (Glyph.holds Lexeme.isSymbolChar)).map Glyph.toChar ++ tail).map
        Glyph.char ∧
      (∀ c ∈ (rest.takeWhile (Glyph.holds Lexeme.isSymbolChar)).map Glyph.toChar,
        Lexeme.isSymbolChar c = true) ∧
      ∀ c ∈ tail.head?, Lexeme.isSymbolChar c = false := by
  have hsplit := List.takeWhile_append_dropWhile (p := Glyph.holds Lexeme.isSymbolChar) (l := rest)
  have hstop := List.head?_dropWhile_not (Glyph.holds Lexeme.isSymbolChar) rest
  have hrun := List.all_eq_true.mp
    (List.all_takeWhile (p := Glyph.holds Lexeme.isSymbolChar) (l := rest))
  generalize rest.takeWhile (Glyph.holds Lexeme.isSymbolChar) = run at h hsplit hrun ⊢
  generalize rest.dropWhile (Glyph.holds Lexeme.isSymbolChar) = others at hsplit hstop
  subst hsplit
  rw [List.drop_left] at h
  subst h
  have hchars : (run.map Glyph.toChar).map Glyph.char = run := by
    rw [List.map_map]
    refine (List.map_congr_left ?_).trans (List.map_id run)
    intro glyph hmem
    have hholds := hrun glyph hmem
    cases glyph with
    | char c => rfl
    | stray byte => cases hholds
  refine ⟨?_, ?_, ?_⟩
  · rw [List.map_append, hchars]
  · intro c hmem
    rcases List.mem_map.mp hmem with ⟨glyph, hglyph, rfl⟩
    have hholds := hrun glyph hglyph
    cases glyph with
    | char c => exact hholds
    | stray byte => cases hholds
  · intro c hc
    rw [List.head?_map, hc] at hstop
    exact hstop

theorem leading?_eq_some {glyph : Glyph} {rest : List Glyph} {lexeme : Lexeme} {more : Nat}
    {tail : List Char} (h : Lexeme.leading? glyph rest = some (lexeme, more))
    (htail : rest.drop more = tail.map Glyph.char) :
    glyph :: rest = (lexeme.chars ++ tail).map Glyph.char ∧ lexeme.EndsBefore tail.head? := by
  unfold Lexeme.leading? at h
  split at h
  case h_1 => cases h
  case h_2 =>
    split at h
    · rename_i hstar
      cases h
      rcases List.head?_eq_some_iff.mp hstar with ⟨others, rfl⟩
      rw [List.drop_succ_cons, List.drop_zero] at htail
      rw [htail]
      exact ⟨rfl, trivial⟩
    · rename_i hstar
      cases h
      rw [List.drop_zero] at htail
      rw [htail, List.head?_map] at hstar
      rw [htail]
      refine ⟨rfl, ?_⟩
      intro hhead
      rw [hhead] at hstar
      exact hstar rfl
  case h_3 | h_4 | h_5 =>
    cases h
    rw [List.drop_zero] at htail
    rw [htail]
    exact ⟨rfl, trivial⟩
  case h_6 c _ _ _ _ =>
    split at h
    · rename_i hsymbol
      cases h
      rcases symbol_run htail with ⟨hrest, hrun, hnext⟩
      refine ⟨?_, List.cons_ne_nil _ _, ?_, hnext⟩
      · exact congrArg (Glyph.char c :: ·) hrest
      · intro other hmem
        rcases List.mem_cons.mp hmem with rfl | hmem
        · exact hsymbol
        · exact hrun other hmem
    · cases h

/-!
# Tokens

The induction is on the glyphs, of which the first may belong to a token before them.
-/

theorem spelling_cons (piece : Piece) (rest : List Piece) :
    spelling (piece :: rest) = piece.chars ++ spelling rest :=
  List.flatMap_cons

theorem tokensAfter_divided {pieces : List Piece} (h : Divided pieces) (position : Position) :
    ∃ tokens, tokensAfter 0 position ((spelling pieces).map Glyph.char) = .ok tokens ∧
      tokens.map Token.lexeme = lexemes pieces := by
  induction pieces generalizing position with
  | nil => exact ⟨[], rfl, rfl⟩
  | cons piece rest ih =>
      rw [spelling_cons]
      cases piece with
      | space c =>
          rcases ih h.2 (position.after (.char c)) with ⟨tokens, htokens, hlexemes⟩
          refine ⟨tokens, ?_, hlexemes⟩
          have hspace : (Glyph.char c).holds Lexeme.isSpace = true := h.1
          rw [Piece.chars, List.singleton_append, List.map_cons, tokensAfter, if_pos hspace,
            htokens]
      | token lexeme =>
          rcases leading?_of_endsBefore h.1 with ⟨c, others, hchars, hspace, hleading⟩
          rcases ih h.2 (((others.map Glyph.char).foldl Position.after
            (position.after (.char c)))) with ⟨tokens, htokens, hlexemes⟩
          have hnospace : ¬ (Glyph.char c).holds Lexeme.isSpace = true := by
            rw [Glyph.holds, hspace]
            exact Bool.false_ne_true
          refine ⟨⟨lexeme, position⟩ :: tokens, ?_, ?_⟩
          · rw [Piece.chars, hchars, List.cons_append, List.map_cons, tokensAfter,
              if_neg hnospace, hleading]
            dsimp only
            rw [tokensAfter_skip, List.map_append, List.take_left' (List.length_map _),
              List.drop_left' (List.length_map _), htokens]
            rfl
          · rw [List.map_cons, hlexemes]
            rfl

theorem divided_of_tokensAfter {skip : Nat} {position : Position} {glyphs : List Glyph}
    {tokens : List Token} (h : tokensAfter skip position glyphs = .ok tokens) :
    ∃ pieces, glyphs.drop skip = (spelling pieces).map Glyph.char ∧ Divided pieces ∧
      lexemes pieces = tokens.map Token.lexeme := by
  induction glyphs generalizing skip position tokens with
  | nil =>
      refine ⟨[], List.drop_nil, trivial, ?_⟩
      cases skip <;> (cases h; rfl)
  | cons glyph rest ih =>
      cases skip with
      | succ skip => exact ih h
      | zero =>
          rw [tokensAfter] at h
          split at h
          · rename_i hspace
            rcases ih h with ⟨pieces, hglyphs, hdivided, hlexemes⟩
            cases glyph with
            | stray byte => cases hspace
            | char c =>
                refine ⟨.space c :: pieces, ?_, ⟨hspace, hdivided⟩, hlexemes⟩
                rw [List.drop_zero] at hglyphs
                rw [hglyphs]
                rfl
          · split at h
            · rename_i lexeme more hleading
              cases hothers : tokensAfter more (position.after glyph) rest with
              | error _ =>
                  rw [hothers] at h
                  cases h
              | ok others =>
                  rw [hothers] at h
                  cases h
                  rcases ih hothers with ⟨pieces, hglyphs, hdivided, hlexemes⟩
                  rcases leading?_eq_some hleading hglyphs with ⟨hchars, hends⟩
                  refine ⟨.token lexeme :: pieces, hchars, ⟨hends, hdivided⟩, ?_⟩
                  rw [List.map_cons, ← hlexemes]
                  rfl
            · cases h

/-! # Texts -/

theorem solid_of_isSymbolChar {c : Char} (h : Lexeme.isSymbolChar c = true) : Solid c := by
  have hupper : c.isUpper = true → Solid c := by
    intro hcase
    have hcode : 'A'.val ≤ c.val ∧ c.val ≤ 'Z'.val := of_decide_eq_true hcase
    have hleast : 65 ≤ c.toNat := UInt32.le_iff_toNat_le.mp hcode.1
    have hmost : c.toNat ≤ 90 := UInt32.le_iff_toNat_le.mp hcode.2
    constructor
    · exact Nat.lt_of_le_of_lt hmost (by decide)
    · simp only [isBlank, Bool.or_eq_false_iff, Bool.and_eq_false_iff, decide_eq_false_iff_not,
        beq_eq_false_iff_ne]
      omega
  simp only [Lexeme.isSymbolChar, Bool.or_eq_true, beq_iff_eq] at h
  rcases h with ((((((hdigit | hcase) | rfl) | rfl) | rfl) | rfl) | rfl) | rfl
  · exact solid_of_isDigit hdigit
  · exact hupper hcase
  all_goals exact ⟨by unfold Plain; decide, by decide⟩

theorem plain_of_isSpace {c : Char} (h : Lexeme.isSpace c = true) : Plain c := by
  simp only [Lexeme.isSpace, Bool.or_eq_true, beq_iff_eq] at h
  rcases h with (((rfl | rfl) | rfl) | rfl) | rfl
  all_goals
    unfold Plain
    decide

theorem plain_of_endsBefore {lexeme : Lexeme} {next : Option Char} (h : lexeme.EndsBefore next) :
    ∀ c ∈ lexeme.chars, Plain c := by
  intro c hmem
  cases lexeme with
  | symbol chars => exact (solid_of_isSymbolChar (h.2.1 c hmem)).plain
  | _ =>
      simp only [Lexeme.chars, List.mem_cons, List.not_mem_nil, or_false, or_self] at hmem
      rw [hmem]
      unfold Plain
      decide

theorem plain_of_divided {pieces : List Piece} (h : Divided pieces) :
    ∀ c ∈ spelling pieces, Plain c := by
  induction pieces with
  | nil =>
      intro c hmem
      cases hmem
  | cons piece rest ih =>
      intro c hmem
      rw [spelling_cons] at hmem
      cases piece with
      | space other =>
          rcases List.mem_cons.mp hmem with rfl | hmem
          · exact plain_of_isSpace h.1
          · exact ih h.2 c hmem
      | token lexeme =>
          rcases List.mem_append.mp hmem with hmem | hmem
          · exact plain_of_endsBefore h.1 c hmem
          · exact ih h.2 c hmem

theorem mem_lexemes {lexeme : Lexeme} {pieces : List Piece} :
    lexeme ∈ lexemes pieces ↔ .token lexeme ∈ pieces := by
  rw [lexemes, List.mem_filterMap]
  constructor
  · rintro ⟨piece, hmem, hpiece⟩
    cases piece with
    | space c => cases hpiece
    | token other =>
        cases hpiece
        exact hmem
  · intro hmem
    exact ⟨_, hmem, rfl⟩

theorem endsBefore_of_divided {pieces : List Piece} (h : Divided pieces) {lexeme : Lexeme}
    (hmem : .token lexeme ∈ pieces) : ∃ next, lexeme.EndsBefore next := by
  induction pieces with
  | nil => cases hmem
  | cons piece rest ih =>
      cases piece with
      | space c =>
          rcases List.mem_cons.mp hmem with hpiece | hmem
          · cases hpiece
          · exact ih h.2 hmem
      | token other =>
          rcases List.mem_cons.mp hmem with hpiece | hmem
          · cases hpiece
            exact ⟨_, h.1⟩
          · exact ih h.2 hmem

theorem exists_ink {lexeme : Lexeme} {next : Option Char} (h : lexeme.EndsBefore next) :
    ∃ c ∈ lexeme.chars, isBlank c = false := by
  cases lexeme with
  | symbol chars =>
      rcases List.exists_mem_of_ne_nil chars h.1 with ⟨c, hmem⟩
      exact ⟨c, hmem, (solid_of_isSymbolChar (h.2.1 c hmem)).ink⟩
  | zero | star => exact ⟨'*', List.mem_cons_self, by decide⟩
  | plus => exact ⟨'+', List.mem_cons_self, by decide⟩
  | minus => exact ⟨'-', List.mem_cons_self, by decide⟩
  | slash => exact ⟨'/', List.mem_cons_self, by decide⟩

theorem trim_of_token {pieces : List Piece} (h : Divided pieces) {lexeme : Lexeme}
    (hmem : lexeme ∈ lexemes pieces) : (Text.ofChars (spelling pieces)).trim.isEmpty = false := by
  have htoken := mem_lexemes.mp hmem
  rcases endsBefore_of_divided h htoken with ⟨_, hends⟩
  rcases exists_ink hends with ⟨c, hc, hink⟩
  have hspelled : c ∈ spelling pieces := List.mem_flatMap.mpr ⟨_, htoken, hc⟩
  have hglyph : Glyph.char c ∈ (Text.ofChars (spelling pieces)).glyphs := by
    rw [Text.glyphs_ofChars (plain_of_divided h)]
    exact List.mem_map_of_mem hspelled
  exact Text.trim_isEmpty_of_ink hglyph hink

theorem tokens_of_divided {pieces : List Piece} (h : Divided pieces) :
    ∃ found, tokens (.ofChars (spelling pieces)) = .ok found ∧
      found.map Token.lexeme = lexemes pieces := by
  unfold tokens
  rw [Text.glyphs_ofChars (plain_of_divided h)]
  exact tokensAfter_divided h .start

theorem divided_of_tokens {text : Text} {found : List Token} (h : tokens text = .ok found) :
    ∃ pieces, text = .ofChars (spelling pieces) ∧ Divided pieces ∧
      lexemes pieces = found.map Token.lexeme := by
  rcases divided_of_tokensAfter h with ⟨pieces, hglyphs, hdivided, hlexemes⟩
  refine ⟨pieces, ?_, hdivided, hlexemes⟩
  calc text = Text.ofGlyphs text.glyphs := (Text.ofGlyphs_glyphs text).symm
    _ = Text.ofGlyphs ((spelling pieces).map Glyph.char) := congrArg Text.ofGlyphs hglyphs
    _ = .ofChars (spelling pieces) := Text.ofGlyphs_char _

end Expr
end Ibm704

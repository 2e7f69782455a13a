import Ibm704.Text.Quoted

/-!
# Tokens of an expression

The text of an operand is divided into tokens from left to right.  Two stars are
one token, a symbol is as long as its characters reach, and the white space of a
line is skipped.  A character that starts no token makes the whole text invalid.
-/

namespace Ibm704
namespace Expr

structure Position where
  line : Nat
  column : Nat
  deriving DecidableEq, Repr

namespace Position

def start : Position :=
  ⟨1, 1⟩

def after (position : Position) (glyph : Glyph) : Position :=
  if glyph = .char '\n' then ⟨position.line + 1, 1⟩ else ⟨position.line, position.column + 1⟩

def toText (position : Position) : Text :=
  Text.decimal position.line ++ .ofString ":" ++ Text.decimal position.column

end Position

inductive Lexeme where
  | zero
  | plus
  | minus
  | star
  | slash
  | symbol (chars : List Char)
  deriving DecidableEq, Repr

structure Token where
  lexeme : Lexeme
  position : Position
  deriving DecidableEq, Repr

namespace Lexeme

def toText : Lexeme → Text
  | zero => .ofString "**"
  | plus => .ofString "+"
  | minus => .ofString "-"
  | star => .ofString "*"
  | slash => .ofString "/"
  | symbol chars => .ofChars chars

def isSymbolChar (c : Char) : Bool :=
  c.isDigit || c.isUpper || c == '#' || c == '@' || c == '_' || c == '&' || c == '.' || c == '%'

def isSpace (c : Char) : Bool :=
  c == '\t' || c == '\n' || c == '\x0C' || c == '\r' || c == ' '

/-- The token that starts with this glyph, and how many of the glyphs after it belong to it. -/
def leading? (glyph : Glyph) (rest : List Glyph) : Option (Lexeme × Nat) :=
  match glyph with
  | .stray _ => none
  | .char '*' => if rest.head? = some (.char '*') then some (zero, 1) else some (star, 0)
  | .char '+' => some (plus, 0)
  | .char '-' => some (minus, 0)
  | .char '/' => some (slash, 0)
  | .char c =>
      if isSymbolChar c then
        let run := rest.takeWhile (Glyph.holds isSymbolChar)
        some (symbol (c :: run.map Glyph.toChar), run.length)
      else
        none

end Lexeme

inductive ParseError where
  | invalidToken (position : Position) (c : Char)
  | unexpectedToken (token : Token)
  deriving DecidableEq, Repr

namespace ParseError

def message : ParseError → Text
  | invalidToken position c =>
      position.toText ++ .ofString ": invalid token " ++ Text.quotedChar c
  | unexpectedToken token =>
      token.position.toText ++ .ofString ": unexpected token " ++ Text.quoted token.lexeme.toText

end ParseError

/-- The tokens of the glyphs from `position` on, the first `skip` of which belong to a token
already. -/
def tokensAfter : (skip : Nat) → Position → List Glyph → Except ParseError (List Token)
  | _, _, [] => .ok []
  | skip + 1, position, glyph :: rest => tokensAfter skip (position.after glyph) rest
  | 0, position, glyph :: rest =>
      if glyph.holds Lexeme.isSpace then
        tokensAfter 0 (position.after glyph) rest
      else
        match Lexeme.leading? glyph rest with
        | some (lexeme, more) =>
            (tokensAfter more (position.after glyph) rest).map (⟨lexeme, position⟩ :: ·)
        | none => .error (.invalidToken position glyph.toChar)

def tokens (text : Text) : Except ParseError (List Token) :=
  tokensAfter 0 .start text.glyphs

end Expr
end Ibm704

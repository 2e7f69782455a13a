import Ibm704.Text.Number
import Ibm704.Text.Printable

/-!
# Quoted text

Text in a message is quoted so that every byte of it can be told: printable
characters stand for themselves, the quote and the backslash are escaped, seven
control characters have a letter, and the rest is written in hexadecimal.
-/

namespace Ibm704
namespace Text

def controlLetter? (c : Char) : Option Char :=
  match c.toNat with
  | 0x07 => some 'a'
  | 0x08 => some 'b'
  | 0x0C => some 'f'
  | 0x0A => some 'n'
  | 0x0D => some 'r'
  | 0x09 => some 't'
  | 0x0B => some 'v'
  | _ => none

def escapedChar (mark c : Char) : Text :=
  if c = mark ∨ c = '\\' then
    ofChars ['\\', c]
  else if isPrintable c then
    ofChar c
  else
    match controlLetter? c with
    | some letter => ofChars ['\\', letter]
    | none =>
        if c.toNat < 0x20 ∨ c.toNat = 0x7F then
          ofString "\\x" ++ zeroPadded 16 2 c.toNat
        else if c.toNat < 0x10000 then
          ofString "\\u" ++ zeroPadded 16 4 c.toNat
        else
          ofString "\\U" ++ zeroPadded 16 8 c.toNat

def escapedGlyph (mark : Char) : Glyph → Text
  | .char c => escapedChar mark c
  | .stray byte => ofString "\\x" ++ zeroPadded 16 2 byte.toNat

def quoted (text : Text) : Text :=
  ofChar '"' ++ text.glyphs.flatMap (escapedGlyph '"') ++ ofChar '"'

def quotedChar (c : Char) : Text :=
  ofChar '\'' ++ escapedChar '\'' c ++ ofChar '\''

end Text
end Ibm704

import Ibm704.Text.Glyph

/-!
# Numbers and columns

Numbers are written with the fewest digits and padded on the left; words of a
table are padded on the right, counting characters and not bytes.
-/

namespace Ibm704
namespace Text

def digits (base n : Nat) : Text :=
  ofChars (Nat.toDigits base n)

def zeroPadded (base width n : Nat) : Text :=
  let shown := Nat.toDigits base n
  ofChars (List.replicate (width - shown.length) '0' ++ shown)

def octal (n : Nat) : Text :=
  digits 8 n

def decimal (n : Nat) : Text :=
  digits 10 n

def signedDecimal (n : Int) : Text :=
  if n < 0 then ofString "-" ++ decimal n.natAbs else decimal n.natAbs

def twoPlaces (n : Int) : Text :=
  if n < 0 then ofString "-" ++ zeroPadded 10 1 n.natAbs else zeroPadded 10 2 n.natAbs

def blanks (count : Nat) : Text :=
  List.replicate count 0x20

def padRight (width : Nat) (text : Text) : Text :=
  text ++ blanks (width - text.glyphs.length)

def join (separator : Text) (parts : List Text) : Text :=
  (parts.intersperse separator).flatten

end Text
end Ibm704

import Ibm704.Text.Glyph

/-!
# Blanks

White space is decided character by character; a stray byte is never blank.
-/

namespace Ibm704

def isBlank (c : Char) : Bool :=
  let code := c.toNat
  (0x09 ≤ code && code ≤ 0x0D) || code == 0x20 || code == 0x85 || code == 0xA0 ||
    code == 0x1680 || (0x2000 ≤ code && code ≤ 0x200A) || code == 0x2028 || code == 0x2029 ||
    code == 0x202F || code == 0x205F || code == 0x3000

namespace Glyph

def blank (glyph : Glyph) : Bool :=
  glyph.holds isBlank

end Glyph

namespace Text

def trimGlyphs (glyphs : List Glyph) : List Glyph :=
  ((glyphs.dropWhile Glyph.blank).reverse.dropWhile Glyph.blank).reverse

def trim (text : Text) : Text :=
  ofGlyphs (trimGlyphs text.glyphs)

end Text

end Ibm704

/-!
# Text and its glyphs

Source text is a list of bytes: columns, lengths and cuts count bytes.  Rules
about characters look at the glyphs of the text instead.  A glyph is either one
character in its UTF-8 form or a stray byte that belongs to no character, so the
glyphs of any text give that text back.
-/

namespace Ibm704

abbrev Text := List UInt8

/-- One character of a text, or a byte that is part of none. -/
inductive Glyph where
  | char (c : Char)
  | stray (byte : UInt8)
  deriving DecidableEq, Repr

namespace Glyph

def replacement : Char := '�'

def toChar : Glyph → Char
  | char c => c
  | stray _ => replacement

def toText : Glyph → Text
  | char c => String.utf8EncodeChar c
  | stray byte => [byte]

def holds (p : Char → Bool) : Glyph → Bool
  | char c => p c
  | stray _ => false

end Glyph

namespace Text

def ofString (s : String) : Text :=
  s.toByteArray.data.toList

def ofChar (c : Char) : Text :=
  String.utf8EncodeChar c

def ofChars (chars : List Char) : Text :=
  chars.flatMap ofChar

def ofGlyphs (glyphs : List Glyph) : Text :=
  glyphs.flatMap Glyph.toText

/-!
# Reading the leading character

A character takes one to four bytes.  The first tells how many continuation bytes
follow, each of which has six bits of the code.
-/

def continuation? (byte : UInt8) : Option Nat :=
  if byte.toNat / 64 = 2 then some (byte.toNat % 64) else none

/-- The character with this code, if the code is that of a character and at least `least`;
a smaller code has a shorter form, and only the shortest form is well formed. -/
def charAtLeast? (least code : Nat) : Option Char :=
  if valid : code.isValidChar then
    if least ≤ code then some (Char.ofNatAux code valid) else none
  else
    none

def leadingChar? (first : UInt8) (rest : Text) : Option (Char × Nat) :=
  let lead := first.toNat
  if lead < 0x80 then
    (charAtLeast? 0 lead).map fun c => (c, 0)
  else if lead < 0xC0 then
    none
  else if lead < 0xE0 then
    match rest with
    | b :: _ => do
        let x ← continuation? b
        let c ← charAtLeast? 0x80 ((lead - 0xC0) * 64 + x)
        return (c, 1)
    | _ => none
  else if lead < 0xF0 then
    match rest with
    | b :: c :: _ => do
        let x ← continuation? b
        let y ← continuation? c
        let char ← charAtLeast? 0x800 (((lead - 0xE0) * 64 + x) * 64 + y)
        return (char, 2)
    | _ => none
  else
    match rest with
    | b :: c :: d :: _ => do
        let x ← continuation? b
        let y ← continuation? c
        let z ← continuation? d
        let char ← charAtLeast? 0x10000 ((((lead - 0xF0) * 64 + x) * 64 + y) * 64 + z)
        return (char, 3)
    | _ => none

def glyphsAfter : (skip : Nat) → Text → List Glyph
  | _, [] => []
  | skip + 1, _ :: rest => glyphsAfter skip rest
  | 0, byte :: rest =>
      match leadingChar? byte rest with
      | some (c, taken) => .char c :: glyphsAfter taken rest
      | none => .stray byte :: glyphsAfter 0 rest

def glyphs (text : Text) : List Glyph :=
  glyphsAfter 0 text

def chars (text : Text) : List Char :=
  text.glyphs.map Glyph.toChar

end Text

end Ibm704

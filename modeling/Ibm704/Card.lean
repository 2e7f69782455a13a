import Ibm704.Text.Blank
import Ibm704.Text.Number

/-!
# Cards

A line of source is a card.  In the fixed layout columns 1 to 6 hold the location
symbol, columns 8 to 11 the operation, and columns 12 to 72 the operand with a
comment after it.  A card with a TAB in it is divided at its first two TABs
instead.  A star in column 1 makes the whole card a remark.

Columns count bytes from 1.
-/

namespace Ibm704

structure CardPosition where
  line : Int
  column : Nat
  deriving DecidableEq, Repr

namespace CardPosition

def none : CardPosition :=
  ⟨0, 0⟩

def toText (position : CardPosition) : Text :=
  Text.twoPlaces position.line ++ .ofString ":" ++ Text.twoPlaces position.column

end CardPosition

structure Card where
  number : Int
  text : Text
  location : Text
  operation : Text
  field : Text
  locationColumn : Nat
  operationColumn : Nat
  fieldColumn : Nat
  remark : Bool
  blank : Bool
  deriving DecidableEq, Repr

namespace Card

def tab : UInt8 := 0x09
def lineFeed : UInt8 := 0x0A
def carriageReturn : UInt8 := 0x0D
def star : UInt8 := 0x2A

def columns (start stop : Nat) (text : Text) : Text :=
  (text.take stop).drop start

def withoutLineEnd (line : Text) : Text :=
  (line.reverse.dropWhile fun byte => byte == carriageReturn || byte == lineFeed).reverse

def trimEnd (text : Text) : Text :=
  Text.ofGlyphs (text.glyphs.reverse.dropWhile Glyph.blank).reverse

def bare (number : Int) (text : Text) : Card where
  number := number
  text := text
  location := []
  operation := []
  field := []
  locationColumn := 1
  operationColumn := 8
  fieldColumn := 12
  remark := false
  blank := false

def tabbed (text : Text) : Text × Option Text × Option Text :=
  let first := text.takeWhile (· != tab)
  match text.dropWhile (· != tab) with
  | [] => (first, none, none)
  | _ :: rest =>
      let second := rest.takeWhile (· != tab)
      match rest.dropWhile (· != tab) with
      | [] => (first, some second, none)
      | _ :: third => (first, some second, some third)

def ofTabbed (number : Int) (text : Text) : Card :=
  let card := bare number text
  match tabbed text with
  | (first, none, _) => { card with location := first.trim }
  | (first, some second, none) =>
      { card with
        location := first.trim
        operation := second.trim
        operationColumn := first.length + 2 }
  | (first, some second, some third) =>
      { card with
        location := first.trim
        operation := second.trim
        field := third
        operationColumn := first.length + 2
        fieldColumn := first.length + second.length + 3 }

def ofColumns (number : Int) (text : Text) : Card :=
  { bare number text with
    location := (columns 0 6 text).trim
    operation := (columns 7 11 text).trim
    field := trimEnd (columns 11 72 text) }

def ofLine (number : Int) (line : Text) : Card :=
  let text := withoutLineEnd line
  if text.trim.isEmpty then
    { bare number text with blank := true }
  else if text.head? = some star then
    { bare number text with remark := true, field := text.tail, fieldColumn := 2 }
  else if text.contains tab then
    ofTabbed number text
  else
    ofColumns number text

def ofLines (number : Int) : List Text → List Card
  | [] => []
  | line :: rest => ofLine number line :: ofLines (number + 1) rest

def splitComment (field : Text) : Text × Text :=
  let glyphs := field.glyphs
  (.ofGlyphs (glyphs.takeWhile fun glyph => !glyph.blank),
    .ofGlyphs (Text.trimGlyphs (glyphs.dropWhile fun glyph => !glyph.blank)))

def position (card : Card) (column : Nat) : CardPosition :=
  ⟨card.number, column⟩

def operandPosition (card : Card) : CardPosition :=
  card.position card.fieldColumn

end Card

/-!
# Source text

A source is divided at its line feeds.  Lines are shorter than `lineLimit`, their
carriage return included, and one carriage return is dropped from the end of each.
-/

namespace Source

def lineLimit : Nat := 65536

def dropReturn (line : Text) : Text :=
  if line.getLast? = some Card.carriageReturn then line.dropLast else line

/-- The pieces between line feeds; nothing after the last line feed is no line. -/
def rawLines (source : Text) : List Text :=
  let pieces := source.splitOn Card.lineFeed
  if pieces.getLast? = some [] then pieces.dropLast else pieces

def lines? (source : Text) : Option (List Text) :=
  let raw := rawLines source
  if raw.all fun line => line.length < lineLimit then some (raw.map dropReturn) else none

end Source

end Ibm704

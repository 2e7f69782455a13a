import Ibm704.Assembly.Assembler

/-!
# Listings

A listing shows each card with the address and the word it was given, further
words below it, and then its reports.  It ends with the number of errors and
warnings and the symbols in the order of their definitions.
-/

namespace Ibm704
namespace Statement

def listingColumns (st : Statement) : Text × Text :=
  match st.emitted with
  | w :: _ => (st.base.toText, w.toSignedOctal)
  | [] =>
      if st.kind = .equate ∨ st.kind = .synonym then
        (Text.blanks 5, st.value.toSignedOctal)
      else if 0 < st.size ∨ st.kind = .origin then
        (st.base.toText, Text.blanks 13)
      else
        (Text.blanks 5, Text.blanks 13)

def furtherLines (address : Address) : List Word → Text
  | [] => []
  | w :: rest =>
      address.toText ++ .ofString "  " ++ w.toSignedOctal ++ .ofString "\n" ++
        furtherLines (address.add 1) rest

def indented (text : Text) : Text :=
  .ofString "\t" ++
    text.flatMap fun byte => if byte = Card.lineFeed then [byte, Card.tab] else [byte]

def listing (st : Statement) : Text :=
  let (address, w) := st.listingColumns
  address ++ .ofString "  " ++ w ++ .ofString "  " ++ st.card.text ++ .ofString "\n" ++
    furtherLines (st.base.add 1) st.emitted.tail ++
    st.reports.flatMap fun report => indented report.toText ++ .ofString "\n"

end Statement

namespace Assembler

def listingCounts (asm : Assembler) : Text :=
  .ofString "\n" ++ Text.decimal asm.errorCount ++ .ofString " errors, " ++
    Text.decimal asm.warningCount ++ .ofString " warnings\n\nSYMBOLS\n"

def symbolLine (entry : Text × Word) : Text :=
  Text.padRight 6 entry.1 ++ .ofString "  " ++ entry.2.toSignedOctal ++ .ofString "\n"

def listingAt (asm : Assembler) (index : Int) : Except Fault Text :=
  match index with
  | .ofNat i =>
      match asm.statements[i]? with
      | some st => .ok st.listing
      | none => .error (.indexOutOfRange i asm.statements.length)
  | .negSucc _ => .error (.negativeIndex index)

def listingPieces (asm : Assembler) : List Text :=
  asm.statements.map Statement.listing ++
    [asm.listingCounts] ++
    asm.symbols.entries.map symbolLine

def listing (asm : Assembler) : Text :=
  asm.listingPieces.flatten

end Assembler

end Ibm704

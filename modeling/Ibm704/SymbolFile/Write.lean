import Ibm704.SymbolFile.Number
import Ibm704.SymbolTable

/-!
# Writing symbol files

A symbol file has four messages: the descriptions of the record of symbols, of
its map and of its list, and then the record.
-/

namespace Ibm704
namespace SymbolFile

def recordNumber : Int := 64
def mapNumber : Int := 65
def listNumber : Int := 66

def writeMessage (content : Text) : Text :=
  writeNumber content.length ++ content

def writeRecord (skipped : Nat) : List Text → Text
  | [] => writeNumber 0
  | first :: rest =>
      writeNumber (skipped + 1) ++ first ++ rest.flatMap (writeNumber 1 ++ ·) ++ writeNumber 0

def writeList (items : List Text) : Text :=
  writeNumber items.length ++ items.flatten

def writeTypeName (name : String) (type : Int) : Text :=
  writeRecord 0 [writeText (.ofString name), writeSigned type]

def writeDescription (type : Int) (part : Nat) (name : String) (fields : List Text) : Text :=
  writeMessage (writeSigned (-type) ++
    writeRecord part [writeRecord 0 (writeTypeName name type :: fields)])

def writeField (name : String) (type : Int) : Text :=
  writeRecord 0 [writeText (.ofString name), writeSigned type]

def writeDescriptions : Text :=
  writeDescription recordNumber 2 "SymTable"
    [writeList [writeField "Source" 6, writeField "Symbols" mapNumber,
      writeField "Order" listNumber]] ++
  writeDescription mapNumber 3 "map[string]word.Word" [writeSigned 6, writeSigned 3] ++
  writeDescription listNumber 1 "[]string" [writeSigned 6]

def writeSymbol (symbol : Text × Word) : Text :=
  writeText symbol.1 ++ writeNumber symbol.2.toNat

/-- The file for a table; its record has no source, and no order if there are no symbols. -/
def write (table : SymbolTable) : Text :=
  let symbols := writeList (table.entries.map writeSymbol)
  let order := writeList (table.names.map writeText)
  writeDescriptions ++ writeMessage (writeSigned recordNumber ++
    writeRecord 1 (if table.entries.isEmpty then [symbols] else [symbols, order]))

end SymbolFile
end Ibm704

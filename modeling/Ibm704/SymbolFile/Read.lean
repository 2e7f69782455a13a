import Ibm704.SymbolFile.Skip
import Ibm704.SymbolTable

/-!
# Reading symbol files

The first value of a symbol file counts, and what comes after it does not.

The value is a record.  `Symbols` maps names to words and `Order` has the names
in the order of their definition; there may be a `Source`, which does not matter
here, and other fields are passed over.
-/

namespace Ibm704
namespace SymbolFile

/-!
# The record of symbols

Two fields of the record are used: a map from names to words and a list of names in
their order.  All others are passed over.
-/

inductive Part where
  | source
  | symbols
  | order
  | skipped (type : Int)
  deriving DecidableEq, Repr

namespace Part

def isSkipped : Part → Bool
  | skipped _ => true
  | _ => false

def isSymbolMap (types : Descriptions) (type : Int) : Bool :=
  match types.lookup type with
  | some description => !description.isSealed && description.map == some ⟨textType, unsignedType⟩
  | none => false

def isTextList (types : Descriptions) (type : Int) : Bool :=
  match types.lookup type with
  | some description => !description.isSealed && description.list == some textType
  | none => false

def ofField (types : Descriptions) (record : Text) (field : Field) : Except Error Part :=
  let expect (fits : Bool) (part : Part) (expected : String) : Except Error Part :=
    if fits then .ok part else .error (.wrongFieldType expected record field.name)
  if field.name.isEmpty then
    .error (.emptyFieldName record)
  else if field.name = .ofString "Source" then
    expect (field.type == textType) source "string"
  else if field.name = .ofString "Symbols" then
    expect (isSymbolMap types field.type) symbols "map[string]word.Word"
  else if field.name = .ofString "Order" then
    expect (isTextList types field.type) order "[]string"
  else
    (checkSkipped types deepest [] field.type).map fun _ => skipped field.type

end Part

/-- The parts of a value of this type.  If a described record has fields, one of them must be
known. -/
def planFor (types : Descriptions) (type : Int) : Except Error (List Part) := do
  match FixedType.find? type with
  | some fixed =>
      match fixed.toRecord? with
      | some record => record.fields.mapM (Part.ofField types record.name)
      | none => throw .notRecord
  | none =>
      match types.lookup type with
      | none => throw .unknownType
      | some description =>
          match description.record with
          | none => throw .notRecord
          | some record =>
              let parts ← record.fields.mapM (Part.ofField types record.name)
              if !parts.isEmpty && parts.all Part.isSkipped then
                throw .noCommonField
              return parts

structure Content where
  symbols : List (Text × Word)
  order : List Text
  deriving DecidableEq, Repr

namespace Content

def empty : Content :=
  ⟨[], []⟩

def readSymbol : Reader (Text × Word) := do
  let name ← readText
  return (name, .ofNat (← readNumber))

def readSymbols : Reader (List (Text × Word)) := do
  let count ← readCount
  readItems .endOfInput readSymbol (← get).message.length count

def readOrder : Reader (List Text) :=
  readList 16 .tooManyNames .missingNames (readBytes .longName)

def readPart (content : Content) : Part → Reader Content
  | .source => do
      let _ ← readText
      return content
  | .symbols => do
      return { content with symbols := (← readSymbols).reverse ++ content.symbols }
  | .order => do
      return { content with order := ← readOrder }
  | .skipped type => do
      skip ((← get).size + 1) type
      return content

def read (parts : List Part) : Reader Content := do
  readFields .backwards parts.length (fun index content =>
    match parts[index]? with
    | some part => readPart content part
    | none => throw .noSuchField) (← get).size 0 empty

def toTable (content : Content) : SymbolTable :=
  content.order.foldl (fun table name =>
    table.define name ((content.symbols.lookup name).getD .zero)) .empty

end Content

def readContent : Reader Content := do
  let type ← Place.message.readType
  let content ← Content.read (← planFor (← get).types type)
  match (← get).fault with
  | some error => throw error
  | none => return content

def read (bytes : Text) : Except Error SymbolTable :=
  (readContent.run' (.ofBytes bytes)).map Content.toTable

end SymbolFile
end Ibm704

import Ibm704.Text.Number

/-!
# Type descriptions in symbol files

A symbol file describes its types before its data.  Types have numbers: those
below 64 are fixed, and a file gives the others.  A description says that a type
is an array, a list, a record, a map, or something sealed whose bytes only its
owner understands.
-/

namespace Ibm704
namespace SymbolFile

/-!
# Fixed types

Types below `firstOwnType` are known without a description.
-/

def booleanType : Int := 1
def signedType : Int := 2
def unsignedType : Int := 3
def floatType : Int := 4
def bytesType : Int := 5
def textType : Int := 6
def complexType : Int := 7
def anyType : Int := 8

def firstOwnType : Int := 64

/-!
# Descriptions

A good description has exactly one part.
-/

structure Field where
  name : Text
  type : Int
  deriving DecidableEq, Repr

structure RecordType where
  name : Text
  fields : List Field
  deriving DecidableEq, Repr

structure ArrayType where
  element : Int
  length : Int
  deriving DecidableEq, Repr

structure MapType where
  key : Int
  element : Int
  deriving DecidableEq, Repr

structure Description where
  array : Option ArrayType
  list : Option Int
  record : Option RecordType
  map : Option MapType
  isSealed : Bool
  deriving DecidableEq, Repr

namespace Description

def empty : Description :=
  ⟨none, none, none, none, false⟩

end Description

/-!
# Own and fixed types

Messages show a type with its fields.  A record is spelt out where it comes first and
named after that.
-/

abbrev Descriptions := List (Int × Description)

inductive FixedType where
  | simple (name : String)
  | list (element : Int)
  | record (name : String) (fields : List (String × Int))
  deriving DecidableEq, Repr

namespace FixedType

def table : List (Int × FixedType) :=
  [(1, simple "bool"), (2, simple "int"), (3, simple "uint"), (4, simple "float"),
   (5, simple "bytes"), (6, simple "string"), (7, simple "complex"), (8, simple "interface"),
   (9, simple "_reserved7"), (10, simple "_reserved6"), (11, simple "_reserved5"),
   (12, simple "_reserved4"), (13, simple "_reserved3"), (14, simple "_reserved2"),
   (15, simple "_reserved1"),
   (16, record "wireType"
      [("ArrayT", 17), ("SliceT", 19), ("StructT", 20), ("MapT", 23), ("GobEncoderT", 24),
       ("BinaryMarshalerT", 24), ("TextMarshalerT", 24)]),
   (17, record "arrayType" [("CommonType", 18), ("Elem", 2), ("Len", 2)]),
   (18, record "CommonType" [("Name", 6), ("Id", 2)]),
   (19, record "sliceType" [("CommonType", 18), ("Elem", 2)]),
   (20, record "structType" [("CommonType", 18), ("Field", 22)]),
   (21, record "fieldType" [("Name", 6), ("Id", 2)]),
   (22, list 21),
   (23, record "mapType" [("CommonType", 18), ("Key", 2), ("Elem", 2)]),
   (24, record "gobEncoderType" [("CommonType", 18)])]

def find? (type : Int) : Option FixedType :=
  table.lookup type

def toRecord? : FixedType → Option RecordType
  | record name fields =>
      some ⟨.ofString name, fields.map fun field => ⟨.ofString field.1, field.2⟩⟩
  | _ => none

def showFields (showType : List Int → Int → Text × List Int) :
    List Int → List (String × Int) → Text × List Int
  | seen, [] => ([], seen)
  | seen, (name, type) :: rest =>
      let (first, seen) := showType seen type
      let (others, seen) := showFields showType seen rest
      (.ofString name ++ .ofString " " ++ first ++ .ofString "; " ++ others, seen)

def showWithin : (depth : Nat) → List Int → Int → Text × List Int
  | 0, seen, _ => ([], seen)
  | depth + 1, seen, type =>
      match find? type with
      | none => (.ofString "<nil>", seen)
      | some (simple name) => (.ofString name, seen)
      | some (list element) =>
          let (shown, seen) := showWithin depth (type :: seen) element
          (.ofString "[]" ++ shown, seen)
      | some (record name fields) =>
          if seen.contains type then
            (.ofString name, seen)
          else
            let (shown, seen) := showFields (showWithin depth) (type :: seen) fields
            (.ofString name ++ .ofString " = struct \x7b " ++ shown ++ .ofString "\x7d", seen)

def shown (type : Int) : Text :=
  (showWithin table.length [] type).1

end FixedType

end SymbolFile
end Ibm704

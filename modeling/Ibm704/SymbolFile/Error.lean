import Ibm704.Text.Number

/-!
# What can be wrong with a symbol file

A symbol file can end too soon, hold numbers that are out of range, describe its
types in a way that makes no sense, or describe other data than symbols.
-/

namespace Ibm704
namespace SymbolFile

inductive Error where
  | endOfInput
  | truncated
  | numberTooLong
  | messageTooLong
  | missingBytes (count left : Nat)
  | unknownType
  | repeatedType
  | extraData
  | backwards
  | skippedBackwards
  | noSuchField
  | longText
  | outOfRange (field : String)
  | tooManyFields (count : Nat)
  | tooManyNames (count : Nat)
  | missingElements (count : Nat)
  | missingNames (count : Nat)
  | longName (length : Nat)
  | notRecord
  | emptyFieldName (record : Text)
  | wrongFieldType (expected : String) (record field : Text)
  | noCommonField
  | undefinedType (shown : Text)
  | cannotSkip (shown : Text)
  | nestedTooDeep
  | longSkipped
  | longTypeName
  | longAny
  | longSealed
  | arrayLength
  deriving DecidableEq, Repr

namespace Error

def aboutData (text : String) : Text :=
  .ofString "gob: " ++ .ofString text

def message : Error → Text
  | endOfInput => .ofString "EOF"
  | truncated => .ofString "unexpected EOF"
  | numberTooLong => aboutData "encoded unsigned integer out of range"
  | messageTooLong => .ofString "invalid message length"
  | missingBytes count left =>
      aboutData "invalid uint data length " ++ Text.decimal count ++
        .ofString ": exceeds input size " ++ Text.decimal left
  | unknownType => aboutData "unknown type id or corrupted data"
  | repeatedType => aboutData "duplicate type received"
  | extraData => .ofString "extra data in buffer"
  | backwards => aboutData "decode: corrupted data: negative delta"
  | skippedBackwards => aboutData "ignore decode: corrupted data: negative delta"
  | noSuchField => aboutData "bad data: field numbers out of bounds"
  | longText => aboutData "bad string slice length: 0"
  | outOfRange field => .ofString "value for \"" ++ .ofString field ++ .ofString "\" out of range"
  | tooManyFields count =>
      aboutData "gob.fieldType slice too big: " ++ Text.decimal count ++
        .ofString " elements of 24 bytes"
  | tooManyNames count =>
      aboutData "string slice too big: " ++ Text.decimal count ++ .ofString " elements of 16 bytes"
  | missingElements count =>
      aboutData "decoding array or slice: length exceeds input size (" ++ Text.decimal count ++
        .ofString " elements)"
  | missingNames count =>
      aboutData "decoding string array or slice: length exceeds input size (" ++
        Text.decimal count ++ .ofString " elements)"
  | longName length =>
      aboutData "length of string exceeds input size (" ++ Text.decimal length ++
        .ofString " bytes)"
  | notRecord =>
      aboutData "type mismatch in decoder: want struct type assembler.SymTable; got non-struct"
  | emptyFieldName record => aboutData "empty name for remote field of type " ++ record
  | wrongFieldType expected record field =>
      aboutData "wrong type (" ++ .ofString expected ++ .ofString ") for received field " ++
        record ++ .ofString "." ++ field
  | noCommonField =>
      aboutData "type mismatch: no fields matched compiling decoder for SymTable"
  | undefinedType shown => aboutData "bad data: undefined type " ++ shown
  | cannotSkip shown => aboutData "bad data: ignore can't handle type " ++ shown
  | nestedTooDeep => .ofString "invalid nesting depth"
  | longSkipped => aboutData "slice length too large"
  | longTypeName => aboutData "bad interface encoding: name too large for buffer"
  | longAny => aboutData "bad interface encoding: data length too large for buffer"
  | longSealed => aboutData "GobDecoder: length too large for buffer"
  | arrayLength => aboutData "length mismatch in ignoreArray"

end Error

end SymbolFile
end Ibm704

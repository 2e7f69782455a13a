import Ibm704.SymbolFile.Reader

/-!
# Messages of symbol files

A message stands after its length.  It starts with the number of a type: a
negative one stands before the description of the type, and any other before a
value of it.  A value of any type within another value starts in the same way, so
there may be descriptions in front of it, and it may continue in another message.
-/

namespace Ibm704
namespace SymbolFile

/-!
# Descriptions

A description is a record of parts, one for each form that a type can have.  The
number of the type is repeated with its name and not used.
-/

namespace Description

def readCommon : Reader Text :=
  readRecord 2 (fun index name =>
    match index with
    | 0 => readText
    | _ => do
        let _ ← readTypeNumber "Id"
        return name) []

def readField : Reader Field :=
  readRecord 2 (fun index field =>
    match index with
    | 0 => return { field with name := ← readText }
    | _ => return { field with type := ← readTypeNumber "Id" }) ⟨[], 0⟩

def readArrayType : Reader ArrayType :=
  readRecord 3 (fun index array =>
    match index with
    | 0 => do
        let _ ← readCommon
        return array
    | 1 => return { array with element := ← readTypeNumber "Elem" }
    | _ => return { array with length := signed (← readNumber) }) ⟨0, 0⟩

def readListType : Reader Int :=
  readRecord 2 (fun index element =>
    match index with
    | 0 => do
        let _ ← readCommon
        return element
    | _ => readTypeNumber "Elem") 0

def readRecordType : Reader RecordType :=
  readRecord 2 (fun index record =>
    match index with
    | 0 => return { record with name := ← readCommon }
    | _ => return { record with
        fields := ← readList 24 .tooManyFields .missingElements readField }) ⟨[], []⟩

def readMapType : Reader MapType :=
  readRecord 3 (fun index map =>
    match index with
    | 0 => do
        let _ ← readCommon
        return map
    | 1 => return { map with key := ← readTypeNumber "Key" }
    | _ => return { map with element := ← readTypeNumber "Elem" }) ⟨0, 0⟩

def readSealedType : Reader Unit :=
  readRecord 1 (fun _ _ => do
    let _ ← readCommon
    return ()) ()

def read : Reader Description :=
  readRecord 7 (fun index description =>
    match index with
    | 0 => return { description with array := some (← readArrayType) }
    | 1 => return { description with list := some (← readListType) }
    | 2 => return { description with record := some (← readRecordType) }
    | 3 => return { description with map := some (← readMapType) }
    | _ => do
        readSealedType
        return { description with isSealed := true }) empty

end Description

def addDescription (type : Int) : Reader Unit := do
  if type < firstOwnType ∨ ((← get).types.lookup type).isSome then
    throw .repeatedType
  let description ← Description.read
  modify fun input => { input with types := (type, description) :: input.types }

/-!
# Messages

A file is a row of messages, each after its length.  A message holds one description
or a value.
-/

def messageLimit : Nat := 1 <<< 33

def nextMessage : Reader Unit := do
  let input ← get
  let (length, rest) ← takeHead input.later
  let message := rest.take length
  if messageLimit ≤ length then
    throw .messageTooLong
  else if message.length < length then
    throw .truncated
  else
    set { input with message, later := rest.drop length }

inductive Place where
  | message
  | value
  deriving DecidableEq, Repr

namespace Place

/-- The number of a type in front of its description or of a value, in 32 bits.  Within a value, a
number that is too long is a fault that does not stop the reader; it then stands for 0. -/
def readHead (place : Place) : Reader Int32 := do
  let input ← get
  match takeHead input.message, place with
  | .ok (head, rest), _ =>
      set { input with message := rest }
      return .ofInt (signed head)
  | .error error, .message => throw error
  | .error .numberTooLong, .value =>
      set { input with message := input.message.drop 1, fault := some .numberTooLong }
      return 0
  | .error _, .value => throw .endOfInput

def endDescription (place : Place) : Reader Unit := do
  let input ← get
  if input.message.isEmpty then
    return
  else
    match place with
    | message => throw .extraData
    | value =>
        let (_, rest) ← takeHead input.message
        set { input with message := rest }

/-- The type of the next value, after the descriptions in front of it; `first` is true in front of
the first of them.  Every description takes a byte at least, so `fuel` need not be more than the
bytes that are left. -/
def readTypeFrom (place : Place) : (fuel : Nat) → (first : Bool) → Reader Int
  | 0, first => throw (if first then .endOfInput else .truncated)
  | fuel + 1, first => do
      let input ← get
      if input.message.isEmpty then
        if input.later.isEmpty then
          throw (if first then .endOfInput else .truncated)
        nextMessage
      let head ← place.readHead
      if 0 ≤ head then
        return head.toInt
      else
        addDescription (-head).toInt
        place.endDescription
        readTypeFrom place fuel false

def readType (place : Place) : Reader Int := do
  let input ← get
  match input.fault with
  | some error => throw error
  | none => place.readTypeFrom input.size true

end Place

end SymbolFile
end Ibm704

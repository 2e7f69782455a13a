import Ibm704.SymbolFile.Message

/-!
# Passing over values in symbol files

A record may have fields that nobody asked for.  Their types are looked at before
any value is read, and then their values are passed over.
-/

namespace Ibm704
namespace SymbolFile

inductive Layout where
  | numbers (count : Nat)
  | bytes
  | any
  | array (type : ArrayType)
  | map (type : MapType)
  | list (element : Int)
  | record (type : RecordType)
  | closed
  deriving DecidableEq, Repr

namespace Layout

def simple? (type : Int) : Option Layout :=
  if type = booleanType ∨ type = signedType ∨ type = unsignedType ∨ type = floatType then
    some (numbers 1)
  else if type = complexType then
    some (numbers 2)
  else if type = bytesType ∨ type = textType then
    some bytes
  else if type = anyType then
    some any
  else
    none

def ofDescription? (description : Description) : Option Layout :=
  (description.array.map array) <|> (description.map.map map) <|> (description.list.map list) <|>
    (description.record.map record) <|> (if description.isSealed then some closed else none)

def find (types : Descriptions) (type : Int) : Except Error Layout :=
  match simple? type with
  | some layout => .ok layout
  | none =>
      match types.lookup type with
      | none => .error (.undefinedType (FixedType.shown type))
      | some description =>
          match ofDescription? description with
          | some layout => .ok layout
          | none => .error (.cannotSkip (FixedType.shown type))

def parts : Layout → List Int
  | array type => [type.element]
  | map type => [type.key, type.element]
  | list element => [element]
  | record type => type.fields.map Field.type
  | _ => []

end Layout

/-! # Before reading -/

def checkFields (check : List Int → Int → Except Error (List Int)) (record : Text) :
    List Int → List Field → Except Error (List Int)
  | seen, [] => .ok seen
  | seen, field :: rest =>
      if field.name.isEmpty then
        .error (.emptyFieldName record)
      else
        match check seen field.type with
        | .ok seen => checkFields check record seen rest
        | .error error => .error error

/-- Can values of the type be passed over?  The types in `seen` need no second look, so that a type
may contain itself; the result has those that were looked at before and now.  A type must not be
nested deeper than `depth`. -/
def checkSkipped (types : Descriptions) :
    (depth : Nat) → List Int → Int → Except Error (List Int)
  | 0, _, _ => .error .nestedTooDeep
  | depth + 1, seen, type =>
      if seen.contains type then
        .ok seen
      else
        match Layout.find types type with
        | .error error => .error error
        | .ok (.record record) =>
            checkFields (checkSkipped types depth) record.name (type :: seen) record.fields
        | .ok layout => layout.parts.foldlM (checkSkipped types depth) (type :: seen)

def deepest : Nat := 10000

/-! # Reading -/

def skipBytes (long : Error) : Reader Unit := do
  let _ ← readBytes fun _ => long
  return ()

def skipItems (missing : Error) (item : Reader Unit) (count : Nat) : Reader Unit := do
  let _ ← readItems missing item (← get).size count
  return ()

/-- So many pairs.  Once a pair took nothing, as one of records does at the end of a message, the
others take nothing either; so `fuel` need not be more than the bytes that are left and one. -/
def skipPairs (pair : Reader Unit) : (fuel count : Nat) → Reader Unit
  | _, 0 => return ()
  | 0, _ + 1 => return ()
  | fuel + 1, count + 1 => do
      let input ← get
      pair
      if input.message.isEmpty && (← get).size == input.size then
        return ()
      else
        skipPairs pair fuel count

/-- Passes over a value.  A value within another one stands after at least one byte of it, so
`fuel` need not be more than the bytes that are left and one. -/
def skip : (fuel : Nat) → Int → Reader Unit
  | 0, _ => throw .endOfInput
  | fuel + 1, type => do
      match ← Layout.find (← get).types type with
      | .numbers count =>
          for _ in List.range count do
            let _ ← readNumber
      | .bytes => skipBytes .longSkipped
      | .any =>
          skipBytes .longTypeName
          let _ ← Place.value.readType
          skipBytes .longAny
      | .array array =>
          let count ← readNumber
          if (Int64.ofNat count).toInt = array.length then
            skipItems (.missingElements count) (skip fuel array.element) array.length.toNat
          else
            throw .arrayLength
      | .map map =>
          let count ← readCount
          skipPairs (do
            skip fuel map.key
            skip fuel map.element) ((← get).size + 1) count
      | .list element =>
          let count ← readCount
          skipItems (.missingElements count) (skip fuel element) count
      | .record record =>
          readFields .skippedBackwards record.fields.length (fun index _ =>
            match record.fields[index]? with
            | some field => skip fuel field.type
            | none => throw .noSuchField) (← get).size 0 ()
      | .closed => skipBytes .longSealed

end SymbolFile
end Ibm704

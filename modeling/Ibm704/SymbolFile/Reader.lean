import Ibm704.SymbolFile.Number
import Ibm704.SymbolFile.TypeDescription

/-!
# Readers of symbol files

A symbol file is a sequence of messages.  A reader takes bytes from the front of
the present message; only where the type of a value is looked for does it go on to
the next one.

A record is a sequence of fields.  In front of each stands how far its number lies
beyond the one before, so fields can be left out, and 0 ends the record.
-/

namespace Ibm704
namespace SymbolFile

structure Input where
  message : Text
  later : Text
  types : Descriptions
  /-- A fault that does not stop the reader, but leaves no result in the end. -/
  fault : Option Error
  deriving DecidableEq, Repr

namespace Input

def ofBytes (bytes : Text) : Input :=
  ⟨[], bytes, [], none⟩

def size (input : Input) : Nat :=
  input.message.length + input.later.length

end Input

abbrev Reader := StateT Input (Except Error)

/-!
# Values

Numbers and texts are taken from the present message only.
-/

def readNumber : Reader Nat := do
  let input ← get
  let (number, rest) ← takeNumber .missingBytes input.message
  set { input with message := rest }
  return number

def readBytes (long : Nat → Error) : Reader Text := do
  let count ← readNumber
  let input ← get
  let bytes := input.message.take count
  if bytes.length < count then
    throw (long count)
  else
    set { input with message := input.message.drop count }
    return bytes

def readText : Reader Text :=
  readBytes fun _ => .longText

def readCount : Reader Nat := do
  let count ← readNumber
  return if signLimit ≤ count then 0 else count

def readTypeNumber (field : String) : Reader Int := do
  let n := signed (← readNumber)
  if (Int32.ofInt n).toInt = n then return n else throw (.outOfRange field)

/-!
# Records and lists

Fields of a record are numbered, and each stands after its distance from the one
before.  A list stands after its length, which is checked against the bytes that are
left.
-/

/-- The fields of a record from number `next` on, taken one after another by `step`.  Every field
takes a byte at least, so `fuel` need not be more than the bytes that are left. -/
def readFields {α : Type} (negative : Error) (count : Nat) (step : Nat → α → Reader α) :
    (fuel next : Nat) → α → Reader α
  | 0, _, value => return value
  | fuel + 1, next, value => do
      if (← get).message.isEmpty then
        return value
      else
        let beyond ← readNumber
        if signLimit ≤ beyond then
          throw negative
        else if beyond = 0 then
          return value
        else if count ≤ next + beyond - 1 then
          throw .noSuchField
        else
          let value ← step (next + beyond - 1) value
          readFields negative count step fuel (next + beyond) value

def readRecord {α : Type} (count : Nat) (step : Nat → α → Reader α) (value : α) : Reader α := do
  readFields .backwards count step (← get).message.length 0 value

def readItems {α : Type} (missing : Error) (item : Reader α) :
    (fuel count : Nat) → Reader (List α)
  | _, 0 => return []
  | 0, _ + 1 => throw missing
  | fuel + 1, count + 1 => do
      if (← get).message.isEmpty then
        throw missing
      else
        let first ← item
        let rest ← readItems missing item fuel count
        return first :: rest

def readList {α : Type} (size : Nat) (long missing : Nat → Error) (item : Reader α) :
    Reader (List α) := do
  let count ← readNumber
  if 1 <<< 33 < count * size then
    throw (long count)
  else
    readItems (missing count) item (← get).message.length count

end SymbolFile
end Ibm704

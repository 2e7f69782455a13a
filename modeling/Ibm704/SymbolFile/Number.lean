import Ibm704.Image
import Ibm704.SymbolFile.Error

/-!
# Numbers in symbol files

A number below 128 is one byte.  Any other is its bytes, the most significant
first, after a byte that holds 256 less their count.  A signed number is doubled;
a negative one is complemented before, and its last bit is set.
-/

namespace Ibm704
namespace SymbolFile

/-! # Writing -/

def writeNumber (n : Nat) : Text :=
  if n < 128 then
    [UInt8.ofNat n]
  else
    let count := n.log2 / 8 + 1
    UInt8.ofNat (256 - count) :: Image.numberBytes count n

def writeSigned : Int → Text
  | .ofNat n => writeNumber (2 * n)
  | .negSucc n => writeNumber (2 * n + 1)

def writeText (text : Text) : Text :=
  writeNumber text.length ++ text

/-!
# Reading

Numbers from `signLimit` on count as negative where a count is asked for.
-/

def signed (n : Nat) : Int :=
  if n % 2 = 1 then .negSucc (n / 2) else .ofNat (n / 2)

/-- The number that bytes start with and the bytes after it, where `short count left` says what is
wrong if only `left` of its `count` bytes are there. -/
def takeNumber (short : Nat → Nat → Error) : Text → Except Error (Nat × Text)
  | [] => .error .endOfInput
  | first :: rest =>
      let count := 256 - first.toNat
      let bytes := rest.take count
      if first.toNat < 128 then
        .ok (first.toNat, rest)
      else if 8 < count then
        .error .numberTooLong
      else if bytes.length < count then
        .error (short count bytes.length)
      else
        .ok (Image.number bytes, rest.drop count)

def takeHead : Text → Except Error (Nat × Text) :=
  takeNumber fun _ _ => .truncated

def signLimit : Nat := 1 <<< 63

end SymbolFile
end Ibm704

import Ibm704.Literal.Basic
import Ibm704.Word.Basic

/-!
# Octal literals

An octal literal fills the word from the right: twelve digits may set the sign
bit, digits further left are lost, and a minus sign sets the sign bit as well.
-/

namespace Ibm704
namespace Literal

def isOctalDigit (c : Char) : Bool :=
  '0' ≤ c && c ≤ '7'

def checkOctal : List Char → Except Error Unit
  | [] => .ok ()
  | c :: rest =>
      if isOctalDigit c then checkOctal rest
      else if isSign c then .error .duplicateSign
      else .error (.invalidDigit c)

/-- The digits pushed into 64 bits from the right, three bits for each; what comes out on the left is
lost. -/
def pushOctal (digits : List Char) : Word :=
  ⟨digits.foldl (fun bits c => bits <<< 3 ||| BitVec.ofNat 64 (c.toNat - '0'.toNat)) 0⟩

def readOctal (text : Text) : Except Error Word := do
  let (negative, digits) ← splitSign text.chars
  checkOctal digits
  let value := (pushOctal digits).stored
  return if negative then value.or (Word.make true 0) else value

end Literal
end Ibm704

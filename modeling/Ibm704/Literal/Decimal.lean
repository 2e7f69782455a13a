import Ibm704.Literal.Basic
import Ibm704.Number.FloatWord
import Ibm704.Word.Basic

/-!
# Decimal literals

A decimal literal is a sign, a mantissa and an optional binary scale after the
letter B.  A mantissa of digits alone is an integer; with a point or an exponent
it is a floating point number.  A scale `p` puts the binary point after bit `p`
of the word, counted from the sign: integers are shifted there, and the other
mantissas are rounded to it.

Integers are counted in 64 bits before they are shifted, and scales in 64 bits
with a sign.

A floating point mantissa stands for the nearest double.  Most are settled by
their leading 19 digits.  Where these leave a choice between two doubles, 800
digits are kept, and the point cannot stand further right than after the last of
them.
-/

namespace Ibm704
namespace Literal

structure Exponent where
  negative : Bool
  digits : List Char
  deriving DecidableEq, Repr

structure Mantissa where
  whole : List Char
  fraction : Option (List Char)
  exponent : Option Exponent
  deriving DecidableEq, Repr

namespace Mantissa

def takeFraction : List Char → Option (List Char) × List Char
  | '.' :: rest => (some (rest.takeWhile Char.isDigit), rest.dropWhile Char.isDigit)
  | chars => (none, chars)

def takeExponent : List Char → Option Exponent × List Char
  | 'E' :: rest =>
      let (negative, rest) := takeSign rest
      (some ⟨negative, rest.takeWhile Char.isDigit⟩, rest.dropWhile Char.isDigit)
  | chars => (none, chars)

def read (chars : List Char) : Except Error Mantissa :=
  if chars.isEmpty then
    .error (.missingDigits .beforeScale)
  else
    let whole := chars.takeWhile Char.isDigit
    let (fraction, rest) := takeFraction (chars.dropWhile Char.isDigit)
    let (exponent, rest) := takeExponent rest
    match rest with
    | [] => .ok ⟨whole, fraction, exponent⟩
    | c :: _ => .error (.invalidDigit c)

def isInteger (m : Mantissa) : Bool :=
  m.fraction.isNone && m.exponent.isNone

def digits (m : Mantissa) : List Char :=
  m.whole ++ m.fraction.getD []

def complete (m : Mantissa) : Bool :=
  !m.digits.isEmpty && m.exponent.all fun e => !e.digits.isEmpty

/-- The value of exponent digits; digits after the value has reached 10000 do not count. -/
def exponentValue (digits : List Char) : Nat :=
  digits.foldl (fun value c =>
    if value < 10000 then value * 10 + (c.toNat - '0'.toNat) else value) 0

def writtenExponent (m : Mantissa) : Int :=
  match m.exponent with
  | some e => if e.negative then -(exponentValue e.digits : Int) else exponentValue e.digits
  | none => 0

def decimalExponent (m : Mantissa) : Int :=
  m.writtenExponent - (m.fraction.getD []).length

def significant (m : Mantissa) : List Char :=
  m.digits.dropWhile (· == '0')

def wholeLength (m : Mantissa) : Nat :=
  (m.whole.dropWhile (· == '0')).length

def leadingDigits : Nat := 19

def keptDigits : Nat := 800

/-- Do the leading digits settle the double?  They do when only zeros follow them, and when the
next number of so many digits has the same nearest double. -/
def settled (m : Mantissa) : Bool :=
  let leading := Nat.ofDigitChars 10 (m.significant.take leadingDigits) 0
  let rest := m.significant.drop leadingDigits
  let exponent := m.decimalExponent + rest.length
  rest.all (· == '0') ||
    decide (Double.ofDecimal? leading exponent = Double.ofDecimal? (leading + 1) exponent)

def nearest? (m : Mantissa) : Option Double :=
  Double.ofDecimal? (Nat.ofDigitChars 10 m.digits 0) m.decimalExponent

/-- The double nearest to the digits that are kept, with the point after them.  If the others are
not all 0, a further digit 1 stands for them, so that there is no tie. -/
def nearestKept? (m : Mantissa) : Option Double :=
  let kept := Nat.ofDigitChars 10 (m.significant.take keptDigits) 0
  if (m.significant.drop keptDigits).all (· == '0') then
    Double.ofDecimal? kept m.writtenExponent
  else
    Double.ofDecimal? (kept * 10 + 1) (m.writtenExponent - 1)

def toDouble? (m : Mantissa) : Option Double :=
  if !m.complete then
    none
  else if m.wholeLength ≤ keptDigits || m.settled then
    m.nearest?
  else
    m.nearestKept?

end Mantissa

def readScale (chars : List Char) : Except Error Int64 :=
  let (negative, digits) := takeSign chars
  if digits.isEmpty then
    .error (.missingDigits .inScale)
  else
    match digits.dropWhile Char.isDigit with
    | [] =>
        let value := Int64.ofNat (Nat.ofDigitChars 10 digits 0)
        .ok (if negative then -value else value)
    | c :: _ => .error (.invalidDigit c)

def readScale? : List Char → Except Error (Option Int64)
  | [] => .ok none
  | _ :: scale => (readScale scale).map some

/-- By how many places a binary point after bit `point` moves the units up. -/
def scalePlaces (point : Int64) : Int :=
  (35 - point).toInt

/-- An integer of 64 bits moved by `places`; nothing is left of it after 64 places. -/
def shiftInteger (n : Nat) (places : Int) : Nat :=
  if 64 ≤ places ∨ places ≤ -64 then
    0
  else
    match places with
    | .ofNat k => (n <<< k) % (1 <<< 64)
    | .negSucc k => n >>> (k + 1)

def countDecimal (digits : List Char) : UInt64 :=
  digits.foldl (fun n c => n * 10 + UInt64.ofNat (c.toNat - '0'.toNat)) 0

def integerMagnitude (digits : List Char) (scale : Option Int64) : Nat :=
  let n := (countDecimal digits).toNat
  match scale with
  | some point => shiftInteger n (scalePlaces point)
  | none => n

def doubleMagnitude (d : Double) : Option Int64 → Nat
  | some point => d.scaledMagnitude (scalePlaces point)
  | none => FloatWord.encode d

def readDecimal (text : Text) : Except Error Word := do
  let (negative, body) ← splitSign text.chars
  let mantissaChars := body.takeWhile (· != 'B')
  let scale ← readScale? (body.dropWhile (· != 'B'))
  let mantissa ← Mantissa.read mantissaChars
  if mantissa.isInteger then
    return Word.make negative (integerMagnitude mantissa.whole scale)
  else
    match mantissa.toDouble? with
    | some d => return Word.make negative (doubleMagnitude d scale)
    | none => throw (.unreadable mantissaChars)

end Literal
end Ibm704

import Ibm704.Text.Quoted

/-!
# Literals

What is common to octal and decimal constants: the sign in front and the causes
for which a literal is refused.
-/

namespace Ibm704

namespace Literal

inductive Place where
  | afterSign
  | beforeScale
  | inScale
  deriving DecidableEq, Repr

inductive Error where
  | empty
  | duplicateSign
  | invalidDigit (c : Char)
  | missingDigits (place : Place)
  | unreadable (mantissa : List Char)
  deriving DecidableEq, Repr

namespace Place

def toText : Place → Text
  | afterSign => .ofString "after sign"
  | beforeScale => .ofString "before scale"
  | inScale => .ofString "in binary scale"

end Place

namespace Error

def message : Error → Text
  | empty => .ofString "Empty literal"
  | duplicateSign => .ofString "Duplicate sign"
  | invalidDigit c => .ofString "Invalid digit '" ++ .ofChar c ++ .ofString "'"
  | missingDigits place => .ofString "Invalid digit: no digits " ++ place.toText
  | unreadable mantissa => .ofString "Invalid digit in " ++ Text.quoted (.ofChars mantissa)

end Error

def isSign (c : Char) : Bool :=
  c == '+' || c == '-'

def takeSign : List Char → Bool × List Char
  | '+' :: rest => (false, rest)
  | '-' :: rest => (true, rest)
  | chars => (false, chars)

/-- The sign and what follows it, which is neither empty nor another sign. -/
def splitSign (chars : List Char) : Except Error (Bool × List Char) :=
  if chars.isEmpty then
    .error .empty
  else
    match takeSign chars with
    | (_, []) => .error (.missingDigits .afterSign)
    | (negative, c :: rest) =>
        if isSign c then .error .duplicateSign else .ok (negative, c :: rest)

end Literal

end Ibm704

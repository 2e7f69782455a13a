import Ibm704.Expr.Basic
import Ibm704.Expr.Token
import Ibm704.Text.Blank

/-!
# Reading expressions

Sums are made of products and products of signed atoms:

    sum     = product (("+" | "-") product?)*
    product = signed (("*" | "/") signed?)*
    signed  = ("+" | "-")? atom?            with at least one of the two
    atom    = "**" | "*" | symbol

What is missing counts as 0, and a symbol of digits is an integer.  Operators of
one rank are taken from left to right.  A star is the present location wherever
an atom may stand, and multiplication elsewhere.

The tokens are read in one pass.  The state of the reader is what stands to the
left of the operand that comes next: at most a sum and a product, each with an
operator that waits for its right side.
-/

namespace Ibm704
namespace Expr

structure Pending where
  /-- The sum on the left, and whether the coming product is subtracted. -/
  sum : Option (Expr × Bool)
  /-- The product on the left, and whether the coming operand divides it. -/
  product : Option (Expr × Bool)
  deriving DecidableEq, Repr

namespace Pending

def empty : Pending :=
  ⟨none, none⟩

def productWith (pending : Pending) (operand : Expr) : Expr :=
  match pending.product with
  | none => operand
  | some (left, false) => .mul left operand
  | some (left, true) => .div left operand

def sumWith (pending : Pending) (operand : Expr) : Expr :=
  match pending.sum with
  | none => pending.productWith operand
  | some (left, false) => .add left (pending.productWith operand)
  | some (left, true) => .sub left (pending.productWith operand)

def thenSum (pending : Pending) (operand : Expr) (subtract : Bool) : Pending :=
  ⟨some (pending.sumWith operand, subtract), none⟩

def thenProduct (pending : Pending) (operand : Expr) (divide : Bool) : Pending :=
  ⟨pending.sum, some (pending.productWith operand, divide)⟩

end Pending

inductive Expected where
  | signed
  | atom (negative : Bool)
  | operator (operand : Expr)
  deriving DecidableEq, Repr

def signedAtom (negative : Bool) (atom : Expr) : Expr :=
  if negative then .neg atom else atom

def ofSymbol (chars : List Char) : Expr :=
  if chars.all Char.isDigit then
    .int (Int64.ofNat (Nat.ofDigitChars 10 chars 0))
  else
    .sym (.ofChars chars)

def atom? : Lexeme → Option Expr
  | .zero => some .zero
  | .star => some .here
  | .symbol chars => some (ofSymbol chars)
  | _ => none

def parseTokens : Expected → Pending → List Token → Except ParseError Expr
  | .signed, pending, [] => .ok (pending.sumWith missing)
  | .atom negative, pending, [] => .ok (pending.sumWith (signedAtom negative missing))
  | .operator operand, pending, [] => .ok (pending.sumWith operand)
  | .signed, pending, token :: rest =>
      match token.lexeme, atom? token.lexeme with
      | _, some atom => parseTokens (.operator atom) pending rest
      | .plus, _ => parseTokens (.atom false) pending rest
      | .minus, _ => parseTokens (.atom true) pending rest
      | _, _ =>
          -- A slash: the factor before it may be missing, but not a whole product.
          if pending.product.isSome then
            parseTokens .signed (pending.thenProduct missing true) rest
          else
            .error (.unexpectedToken token)
  | .atom negative, pending, token :: rest =>
      match token.lexeme, atom? token.lexeme with
      | _, some atom => parseTokens (.operator (signedAtom negative atom)) pending rest
      | .plus, _ =>
          parseTokens .signed (pending.thenSum (signedAtom negative missing) false) rest
      | .minus, _ =>
          parseTokens .signed (pending.thenSum (signedAtom negative missing) true) rest
      | _, _ =>
          parseTokens .signed (pending.thenProduct (signedAtom negative missing) true) rest
  | .operator operand, pending, token :: rest =>
      match token.lexeme with
      | .plus => parseTokens .signed (pending.thenSum operand false) rest
      | .minus => parseTokens .signed (pending.thenSum operand true) rest
      | .star => parseTokens .signed (pending.thenProduct operand false) rest
      | .slash => parseTokens .signed (pending.thenProduct operand true) rest
      | _ => .error (.unexpectedToken token)

/-- The expression of one item; a blank item is 0. -/
def parse (text : Text) : Except ParseError Expr :=
  if text.trim.isEmpty then
    .ok missing
  else
    (tokens text).bind (parseTokens .signed .empty)

/-!
# Operand fields

Commas divide a field into items.  Every item is read by itself, so that all that are
no expressions can be reported.
-/

structure ItemError where
  item : Nat
  text : Text
  error : ParseError
  deriving DecidableEq, Repr

namespace ItemError

def message (e : ItemError) : Text :=
  .ofString "item " ++ Text.decimal (e.item + 1) ++ .ofString " " ++ e.text.quoted ++
    .ofString ": " ++ e.error.message

end ItemError

def items (field : Text) : List Text :=
  field.splitOn 0x2C

def parseItems (field : Text) : List (Except ItemError Expr) :=
  (items field).zipIdx.map fun (text, item) =>
    (parse text).mapError fun error => ⟨item, text, error⟩

def parsed (results : List (Except ItemError Expr)) : List Expr :=
  results.filterMap Except.toOption

def refused (results : List (Except ItemError Expr)) : List ItemError :=
  results.filterMap fun
    | .ok _ => none
    | .error error => some error

end Expr
end Ibm704

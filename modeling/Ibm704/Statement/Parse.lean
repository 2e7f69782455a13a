import Ibm704.Literal.Decimal
import Ibm704.Literal.Octal
import Ibm704.Statement.Basic

/-!
# Parsing and validating statements

Parsing reads the field of the card as the kind of statement wants it: as
expressions, as literals, or as characters.  Validation brings the number of
operands into range and blocks statements that cannot be given space.  Neither
looks at any other card.
-/

namespace Ibm704
namespace Statement

/-!
# Characters

The first column of the field counts the words of characters that follow it, ten words
if it is blank.  What is left over is a comment.
-/

def defaultCount : Nat := 10

def characterCount? (byte : UInt8) : Option Nat :=
  if byte = 0x20 then
    some defaultCount
  else if 0x31 ≤ byte.toNat ∧ byte.toNat ≤ 0x39 then
    some (byte.toNat - 0x30)
  else
    none

def groupsOf (size : Nat) : (count : Nat) → Text → List Text
  | 0, _ => []
  | count + 1, text => text.take size :: groupsOf size count (text.drop size)

def groupProblem? (operand group : Text) : Option Problem :=
  (CharacterCode.uncoded? group.chars).map fun c => .badOperand operand (.uncoded c)

def takeCharacters (st : Statement) (count : Nat) (field : Text) : Statement :=
  let length := count * CharacterCode.perWord
  let operand := field.take length
  let padded := operand ++ Text.blanks (length - operand.length)
  let groups := groupsOf CharacterCode.perWord count padded
  { st.failAll (groups.filterMap (groupProblem? operand)) with
    operand := operand
    comment := Text.trim (field.drop length)
    data := groups.map fun group => CharacterCode.pack group.chars }

def parseCharacters (st : Statement) : Statement :=
  match st.card.field with
  | [] => st.takeCharacters defaultCount []
  | first :: rest =>
      match characterCount? first with
      | some count => st.takeCharacters count rest
      | none =>
          (st.fail (.invalidCount (Char.ofNat first.toNat))).takeCharacters defaultCount rest

/-!
# Literals

The field is a list of literals, of which one that is refused counts as 0.
-/

def literalWord (read : Text → Except Literal.Error Word) (literal : Text) : Word :=
  match read literal with
  | .ok w => w
  | .error _ => .zero

/-- What is wrong with a literal, if anything; an empty one is no error. -/
def literalProblem? (read : Text → Except Literal.Error Word) (literal : Text) : Option Problem :=
  match read literal with
  | .ok _ => none
  | .error .empty => none
  | .error .duplicateSign => some (.duplicateSign literal)
  | .error error => some (.invalidLiteral literal error)

def parseLiterals (read : Text → Except Literal.Error Word) (st : Statement) : Statement :=
  let literals := Expr.items st.operand
  { st.failAll (literals.filterMap (literalProblem? read)) with
    data := literals.map (literalWord read) }

/-!
# Expressions

Items that are no expressions are reported and left out.
-/

def parseExprs (st : Statement) : Statement :=
  let results := Expr.parseItems st.operand
  let problems := (Expr.refused results).map fun error => .badOperand st.operand (.item error)
  { st.failAll problems with exprs := Expr.parsed results }

def parseField (st : Statement) : Statement :=
  match st.kind with
  | .characters => st.parseCharacters
  | .remark => { st with comment := st.card.field.trim }
  | kind =>
      let (operand, comment) := Card.splitComment st.card.field
      let st := { st with operand := operand, comment := comment }
      match kind with
      | .decimal => st.parseLiterals Literal.readDecimal
      | .octal => st.parseLiterals Literal.readOctal
      | .heading | .library | .full | .absolute => st
      | _ => st.parseExprs

def parse (st : Statement) : Except Fault Statement := do
  let st ← st.advance .constructed .parsed
  return st.parseField

/-!
# Validation

The number of operands is brought into the range of the kind, with zeros at the end or
by leaving operands out, and a change is warned of.  An instruction without an order
is blocked.
-/

def fitOperands (least most : Nat) (exprs : List Expr) : List Expr :=
  (exprs ++ List.replicate (least - exprs.length) Expr.missing).take most

def checkArity (st : Statement) (least most : Nat) : Statement :=
  let count := st.exprs.length
  if least ≤ count ∧ count ≤ most then
    st
  else
    { st.warn (.arity least most count) with exprs := fitOperands least most st.exprs }

def requireLocation (st : Statement) : Statement :=
  if st.location.isEmpty then
    st.block st.card.locationColumn (.missingLocation st.mnemonic)
  else
    st

def findOrder (st : Statement) : Statement :=
  match Order.ofMnemonic? st.mnemonic with
  | some order => { st with order := some order }
  | none => st.block st.card.operationColumn (.unknownOperation st.mnemonic)

/-- An order that extends into the decrement takes no third operand. -/
def dropDecrement (st : Statement) : Statement :=
  let free := (st.order.map Order.hasDecrement).getD true
  if !st.blocked && !free && 2 < st.exprs.length then
    { st.warn (.arity 1 2 st.exprs.length) with exprs := st.exprs.take 2 }
  else
    st

def check (st : Statement) : Statement :=
  match st.kind with
  | .instruction => ((st.findOrder).checkArity 1 3).dropDecrement
  | .blockStart | .blockEnd | .equate | .synonym => (st.checkArity 1 1).requireLocation
  | .origin | .anchor | .finish => st.checkArity 1 1
  | .repetition => st.checkArity 2 2
  | _ => st

def validate (st : Statement) : Except Fault Statement := do
  let st ← st.advance .parsed .validated
  return st.check

end Statement
end Ibm704

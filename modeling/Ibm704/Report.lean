import Ibm704.Card
import Ibm704.CharacterCode
import Ibm704.Expr.Eval
import Ibm704.Expr.Parser
import Ibm704.Literal.Basic

/-!
# Reports

What can be wrong with a card, and how it is said.  A report names the card and
the column it is about.
-/

namespace Ibm704

inductive Severity where
  | warning
  | error
  deriving DecidableEq, Repr

namespace Severity

def toText : Severity → Text
  | warning => .ofString "warning"
  | error => .ofString "error"

end Severity

inductive OperandCause where
  | item (error : Expr.ItemError)
  | uncoded (c : Char)
  deriving DecidableEq, Repr

namespace OperandCause

def message : OperandCause → Text
  | item error => error.message
  | uncoded c => CharacterCode.uncodedMessage c

end OperandCause

inductive Problem where
  | badOperand (operand : Text) (cause : OperandCause)
  | arity (least most received : Nat)
  | missingLocation (mnemonic : Text)
  | undefinedSymbol (name : Text)
  | duplicateSign (literal : Text)
  | invalidLiteral (literal : Text) (cause : Literal.Error)
  | invalidCount (received : Char)
  | unknownOperation (mnemonic : Text)
  | divideByZero
  | afterEnd
  deriving DecidableEq, Repr

namespace Problem

def message : Problem → Text
  | badOperand operand cause =>
      .ofString "Invalid operand " ++ operand.quoted ++ .ofString "\n\t" ++ cause.message
  | arity least most received =>
      .ofString "Invalid number of operands\n\twant:" ++ Text.decimal least ++
        (if least = most then [] else .ofString " to " ++ Text.decimal most) ++
        .ofString "\n\thave:" ++ Text.decimal received
  | missingLocation mnemonic => mnemonic ++ .ofString " requires a location symbol"
  | undefinedSymbol name => .ofString "Undefined symbol '" ++ name ++ .ofString "'"
  | duplicateSign literal => .ofString "Duplicate sign in literal '" ++ literal ++ .ofString "'"
  | invalidLiteral literal cause =>
      .ofString "Invalid literal '" ++ literal ++ .ofString "'\n\t" ++ cause.message
  | invalidCount received =>
      .ofString "Invalid character count '" ++ .ofChar received ++ .ofString "'"
  | unknownOperation mnemonic => .ofString "Unknown operation '" ++ mnemonic ++ .ofString "'"
  | divideByZero => .ofString "Division by zero"
  | afterEnd => .ofString "Statement after END ignored"

def ofEvalError : Expr.EvalError → Problem
  | .divideByZero => divideByZero
  | .undefined name => undefinedSymbol name

end Problem

structure Report where
  severity : Severity
  position : CardPosition
  problem : Problem
  deriving DecidableEq, Repr

namespace Report

def message (report : Report) : Text :=
  report.position.toText ++ .ofString ": " ++ report.problem.message

def toText (report : Report) : Text :=
  report.severity.toText ++ .ofString ": " ++ report.message

def isError (report : Report) : Bool :=
  report.severity = .error

end Report

end Ibm704

import Ibm704.Assembly.Scope
import Ibm704.Statement.Basic

/-!
# Operands with their values

The operands of a statement are evaluated from left to right.  An operand that
has no value counts as 0, and the failure is reported with the statement; symbols
that were defined on the way stay defined.

A lookup does not know for which statement it is made.  The passes keep the operand
of the statement that is at work, and a lookup that fails is reported there.  Other
failures are reported at the operand of the statement itself.
-/

namespace Ibm704
namespace Statement

structure Resolved where
  value : Option Int64
  statement : Statement
  scope : Scope

namespace Resolved

def number (r : Resolved) : Int :=
  match r.value with
  | some value => value.toInt
  | none => 0

def address (r : Resolved) : Address :=
  .ofInt r.number

end Resolved

/-- Where a lookup that fails is reported; with no statement at work it is nowhere on the cards. -/
def lookupPosition (current : Option CardPosition) : CardPosition :=
  current.getD .none

def failurePosition (st : Statement) (current : Option CardPosition) :
    Expr.EvalError → CardPosition
  | .undefined _ => lookupPosition current
  | .divideByZero => st.card.operandPosition

def resolve (st : Statement) (current : Option CardPosition) (here : Address) (scope : Scope)
    (e : Expr) : Resolved :=
  match e.eval (Scope.environment here) scope with
  | (.ok value, scope) => ⟨some value, st, scope⟩
  | (.error error, scope) =>
      ⟨none, st.failAt (st.failurePosition current error) (.ofEvalError error), scope⟩

structure ResolvedList where
  numbers : List Int
  statement : Statement
  scope : Scope

def resolveAll (st : Statement) (current : Option CardPosition) (here : Address) (scope : Scope) :
    List Expr → ResolvedList
  | [] => ⟨[], st, scope⟩
  | e :: rest =>
      let first := st.resolve current here scope e
      let others := first.statement.resolveAll current here first.scope rest
      ⟨first.number :: others.numbers, others.statement, others.scope⟩

end Statement
end Ibm704

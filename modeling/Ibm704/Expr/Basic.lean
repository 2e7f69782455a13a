import Ibm704.Text.Number

/-!
# Operand expressions

An operand is integer arithmetic over literals, symbols, the location of the
word that is being assembled, and an explicit zero.  Literals are integers of 64
bits, as all values of expressions are.
-/

namespace Ibm704

inductive Expr where
  | add (left right : Expr)
  | sub (left right : Expr)
  | mul (left right : Expr)
  | div (left right : Expr)
  | neg (operand : Expr)
  | int (value : Int64)
  | sym (name : Text)
  /-- The present location, written `*`. -/
  | here
  /-- An explicit zero, written `**`. -/
  | zero
  deriving DecidableEq, Repr

namespace Expr

def missing : Expr :=
  .int 0

def writeBefore : Expr → Text → Text
  | add left right => operation '+' left.writeBefore right.writeBefore
  | sub left right => operation '-' left.writeBefore right.writeBefore
  | mul left right => operation '*' left.writeBefore right.writeBefore
  | div left right => operation '/' left.writeBefore right.writeBefore
  | neg operand => fun rest => .ofString "-" ++ operand.writeBefore rest
  | int value => (Text.signedDecimal value.toInt ++ ·)
  | sym name => (name ++ ·)
  | here => (.ofString "*" ++ ·)
  | zero => (.ofString "**" ++ ·)
where
  operation (operator : Char) (left right : Text → Text) (rest : Text) : Text :=
    .ofString "(" ++ left (.ofChar operator ++ right (.ofString ")" ++ rest))

def toText (e : Expr) : Text :=
  e.writeBefore []

def referencesBefore (rest : List Text) : Expr → List Text
  | add left right => left.referencesBefore (right.referencesBefore rest)
  | sub left right => left.referencesBefore (right.referencesBefore rest)
  | mul left right => left.referencesBefore (right.referencesBefore rest)
  | div left right => left.referencesBefore (right.referencesBefore rest)
  | neg operand => operand.referencesBefore rest
  | sym name => name :: rest
  | int _ => rest
  | here => rest
  | zero => rest

def references (e : Expr) : List Text :=
  e.referencesBefore []

theorem referencesBefore_eq (e : Expr) :
    ∀ rest, e.referencesBefore rest = e.references ++ rest := by
  induction e with
  | add left right ihLeft ihRight
  | sub left right ihLeft ihRight
  | mul left right ihLeft ihRight
  | div left right ihLeft ihRight =>
      intro rest
      simp only [references, referencesBefore]
      rw [ihLeft, ihLeft (right.referencesBefore []), ihRight, ihRight []]
      simp
  | neg operand ih => exact ih
  | sym name => intro rest; rfl
  | int value => intro rest; rfl
  | here => intro rest; rfl
  | zero => intro rest; rfl

end Expr

end Ibm704

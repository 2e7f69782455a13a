import Ibm704.Expr.Basic
import Ibm704.Word.Basic

/-!
# Values of expressions

An expression is evaluated in an environment: the present location, and a lookup
of symbols that may change a state, since a symbol without a definition can be
given one by being looked up.  The state is passed from left to right and
survives a failure.

Values wrap at 64 bits and quotients lose their fraction, so a sum or product is
right modulo the size of core whatever its length.
-/

namespace Ibm704
namespace Expr

structure Environment (σ : Type) where
  here : Address
  lookup : Text → σ → Option Word × σ

inductive EvalError where
  | divideByZero
  | undefined (name : Text)
  deriving DecidableEq, Repr

abbrev Evaluation (σ : Type) := σ → Except EvalError Int64 × σ

def onBoth {σ : Type} (operation : Int64 → Int64 → Except EvalError Int64)
    (left right : Evaluation σ) : Evaluation σ := fun s =>
  match left s with
  | (.error error, s) => (.error error, s)
  | (.ok a, s) =>
      match right s with
      | (.error error, s) => (.error error, s)
      | (.ok b, s) => (operation a b, s)

def quotient (a b : Int64) : Except EvalError Int64 :=
  if b = 0 then .error .divideByZero else .ok (a / b)

def eval {σ : Type} (env : Environment σ) : Expr → Evaluation σ
  | add left right => onBoth (fun a b => .ok (a + b)) (left.eval env) (right.eval env)
  | sub left right => onBoth (fun a b => .ok (a - b)) (left.eval env) (right.eval env)
  | mul left right => onBoth (fun a b => .ok (a * b)) (left.eval env) (right.eval env)
  | div left right => onBoth quotient (left.eval env) (right.eval env)
  | neg operand => fun s =>
      match operand.eval env s with
      | (.ok a, s) => (.ok (-a), s)
      | (.error error, s) => (.error error, s)
  | int value => fun s => (.ok value, s)
  | sym name => fun s =>
      match env.lookup name s with
      | (some w, s) => (.ok (Int64.ofInt w.toInt), s)
      | (none, s) => (.error (.undefined name), s)
  | here => fun s => (.ok (Int64.ofNat env.here.val), s)
  | zero => fun s => (.ok 0, s)

def evalAddress {σ : Type} (env : Environment σ) (e : Expr) (s : σ) :
    Except EvalError Address × σ :=
  match e.eval env s with
  | (.ok value, s) => (.ok (Address.ofInt value.toInt), s)
  | (.error error, s) => (.error error, s)

end Expr
end Ibm704

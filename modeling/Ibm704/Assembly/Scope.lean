import Ibm704.Expr.Eval
import Ibm704.SymbolTable

/-!
# What symbols mean during assembly

A symbol means its definition.  Once an anchor is set, looking up a symbol that
has no definition gives it one: the address of the anchor, which then moves on
by one location.
-/

namespace Ibm704

structure Scope where
  symbols : SymbolTable
  anchor : Option Address
  deriving DecidableEq, Repr

namespace Scope

def empty : Scope :=
  ⟨.empty, none⟩

def lookup (scope : Scope) (name : Text) : Option Word × Scope :=
  match scope.symbols.lookup? name with
  | some value => (some value, scope)
  | none =>
      match scope.anchor with
      | some address =>
          let value := Word.ofNat address.val
          (some value, ⟨scope.symbols.define name value, some (address.add 1)⟩)
      | none => (none, scope)

def define (scope : Scope) (name : Text) (value : Word) : Scope :=
  if name.isEmpty then scope else { scope with symbols := scope.symbols.define name value }

def install (scope : Scope) (address : Address) : Scope :=
  if scope.anchor.isSome then scope else { scope with anchor := some address }

def environment (here : Address) : Expr.Environment Scope where
  here := here
  lookup name scope := scope.lookup name

end Scope

end Ibm704

import Ibm704.Word.Basic

/-!
# Symbol table

Symbols in the order of their definitions.  The first definition of a symbol
stands, and later ones are dropped without complaint.
-/

namespace Ibm704

structure SymbolTable where
  entries : List (Text × Word)
  deriving DecidableEq, Repr

namespace SymbolTable

def empty : SymbolTable :=
  ⟨[]⟩

def lookup? (table : SymbolTable) (name : Text) : Option Word :=
  table.entries.lookup name

def defines (table : SymbolTable) (name : Text) : Bool :=
  (table.lookup? name).isSome

def define (table : SymbolTable) (name : Text) (value : Word) : SymbolTable :=
  if table.defines name then table else ⟨table.entries ++ [(name, value)]⟩

def names (table : SymbolTable) : List Text :=
  table.entries.map Prod.fst

end SymbolTable

end Ibm704

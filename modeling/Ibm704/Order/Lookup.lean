import Ibm704.Order.Table
import Ibm704.Text.Case

/-!
# Finding orders

A mnemonic names at most one order, whatever the case of its letters.  A word is
read as the order with the largest template that does not exceed it, the sign
counting as the highest bit.  Among orders of one template an instruction is
preferred to a constant, and then the first of the table.  The preferred orders
are kept in descending order of their templates, where one is found by halving.

Where that template fixes an address other than that of the word, the word is a
sense order: the last order of the table that has the operation alone as its
template.
-/

namespace Ibm704
namespace Order

def ofMnemonic? (mnemonic : Text) : Option Order :=
  table.find? fun order => order.mnemonic == mnemonic.capitals

/-!
# The index of templates

The index has one order for each template, in descending order, so the largest
template not above a word is found by halving.
-/

/-- The orders with one more entered.  Of one template only one order stays: the one already there,
unless it is a constant and the new order is none. -/
def enter (order : Order) : List Order → List Order
  | [] => [order]
  | head :: rest =>
      if head.template = order.template then
        (if head.constant && !order.constant then order else head) :: rest
      else
        head :: enter order rest

def onePerTemplate (orders : List Order) : List Order :=
  orders.foldl (fun entered order => enter order entered) []

def insertByTemplate (order : Order) : List Order → List Order
  | [] => [order]
  | head :: rest =>
      if head.template.toNat ≤ order.template.toNat then
        order :: head :: rest
      else
        head :: insertByTemplate order rest

def byTemplate : Array Order :=
  ((onePerTemplate table).foldr insertByTemplate []).toArray

def bisect {n : Nat} (holds : Fin n → Bool) (low high : Nat) (h : high ≤ n) : Nat :=
  if hless : low < high then
    if holds ⟨(low + high) / 2, by omega⟩ then
      bisect holds low ((low + high) / 2) (by omega)
    else
      bisect holds ((low + high) / 2 + 1) high h
  else
    low
termination_by high - low

def templateAt (i : Fin byTemplate.size) : Nat :=
  byTemplate[i].template.toNat

def nearestIndex (w : Word) : Nat :=
  bisect (fun i => templateAt i ≤ w.toNat) 0 byTemplate.size (Nat.le_refl _)

def nearest? (w : Word) : Option Order :=
  byTemplate[nearestIndex w]?

/-- The last order of the table that is no constant and has exactly this template, without an
address of its own. -/
def sense? (template : Word) : Option Order :=
  table.reverse.find? fun order =>
    !order.constant && order.template.address.val == 0 && order.template == template

def ofWord? (w : Word) : Option Order := do
  let order ← nearest? w.stored
  let fixed := order.template.address
  if fixed.val ≠ 0 ∧ w.address ≠ fixed then
    return (sense? (order.template.withAddress .zero)).getD order
  else
    return order

end Order
end Ibm704

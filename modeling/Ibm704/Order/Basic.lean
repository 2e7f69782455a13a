import Ibm704.Word.Basic

/-!
# Orders

An order is what a mnemonic stands for: a template word, into which an
instruction puts an address, a tag and possibly a decrement.  Orders of the first
type have only a sign and two prefix bits, so their decrement is free.  Orders of
the second type extend into the decrement with an operation of four octal digits;
some of these fix the address too, which then selects a variant.
-/

namespace Ibm704

structure Order where
  mnemonic : Text
  template : Word
  description : Text
  constant : Bool
  deriving DecidableEq, Repr

namespace Order

inductive Sign where
  | plus
  | minus
  deriving DecidableEq, Repr

namespace Sign

def negative : Sign → Bool
  | plus => false
  | minus => true

end Sign

def prefixTemplate (sign : Sign) (bits : Nat) : Word :=
  Word.make sign.negative (bits <<< 33)

def operationTemplate (sign : Sign) (operation address : Nat) : Word :=
  Word.make sign.negative ((operation <<< 24) + address)

def prefixConstant (mnemonic : String) (sign : Sign) (bits : Nat) (description : String) : Order :=
  ⟨.ofString mnemonic, prefixTemplate sign bits, .ofString description, true⟩

def indexTransfer (mnemonic : String) (sign : Sign) (bits : Nat) (description : String) : Order :=
  ⟨.ofString mnemonic, prefixTemplate sign bits, .ofString description, false⟩

def operation (mnemonic : String) (sign : Sign) (code : Nat) (description : String) : Order :=
  ⟨.ofString mnemonic, operationTemplate sign code 0, .ofString description, false⟩

def variant (mnemonic : String) (sign : Sign) (code address : Nat) (description : String) : Order :=
  ⟨.ofString mnemonic, operationTemplate sign code address, .ofString description, false⟩

/-- Is the decrement an operand of the order?  It is for constants, and for orders that have
prefix bits and no further operation bits. -/
def hasDecrement (order : Order) : Bool :=
  order.constant || (order.template.get ⟨24, 9⟩ == 0 && order.template.get ⟨33, 2⟩ != 0)

def assemble (order : Order) (address tag decrement : Nat) : Word :=
  order.template.or (Word.ofNat (address + (tag <<< 15) + (decrement <<< 18)))

end Order

end Ibm704

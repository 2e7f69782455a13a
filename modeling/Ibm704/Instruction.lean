import Ibm704.CharacterCode
import Ibm704.Order.Lookup

/-!
# Instructions read from words

Any word can be read as an instruction: its order is found by the template, and
what the template leaves over is divided into address, tag and decrement.
-/

namespace Ibm704

structure Instruction where
  word : Word
  order : Option Order
  address : Address
  tag : Nat
  decrement : Nat
  deriving DecidableEq, Repr

namespace Instruction

def residual (w : Word) (order : Order) : Word :=
  ⟨w.bits - order.template.bits⟩

def ofWord (w : Word) : Instruction :=
  let word := w.stored
  match Order.ofWord? word with
  | some order =>
      let rest := residual word order
      ⟨word, some order, rest.address, rest.tag, rest.decrement⟩
  | none => ⟨word, none, .zero, 0, 0⟩

/-- Address, tag and decrement in octal; zeros at the end are left out. -/
def operands (inst : Instruction) : List Text :=
  [Text.octal inst.address.val] ++
    (if inst.tag ≠ 0 ∨ inst.decrement ≠ 0 then [Text.octal inst.tag] else []) ++
    (if inst.decrement ≠ 0 then [Text.octal inst.decrement] else [])

def toText (inst : Instruction) : Text :=
  match inst.order with
  | some order =>
      Text.padRight 4 order.mnemonic ++ .ofString " " ++ Text.join (.ofString ",") inst.operands
  | none => .ofString "OCT " ++ inst.word.toOctal

def dumpLine (location : Address) (w : Word) : Text :=
  Text.join (.ofString "  ")
    [location.toText, w.toSignedOctal, Text.padRight 20 (ofWord w).toText,
      .ofChars (CharacterCode.unpack w)]

end Instruction

end Ibm704

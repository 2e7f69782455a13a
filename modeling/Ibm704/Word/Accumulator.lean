import Ibm704.Word.Basic

/-!
# Accumulator and double product

The accumulator has one bit above the magnitude of a word, so a carry out of the
35 stored bits is kept, and a carry out of that bit is lost.  A product of two
words fills the accumulator and the quotient register together.
-/

namespace Ibm704

/-- The accumulator: a sign and, once a sum was formed, 36 bits of magnitude. -/
structure Accumulator where
  negative : Bool
  magnitude : Nat
  deriving DecidableEq, Repr

namespace Accumulator

def ofWord (w : Word) : Accumulator :=
  ⟨w.negative, w.magnitude⟩

def add (ac : Accumulator) (w : Word) : Accumulator :=
  let sum := Word.signedSum (ac.negative, ac.magnitude) (w.negative, w.magnitude)
  ⟨sum.1, sum.2 % (2 * Word.signWeight)⟩

def overflow (ac : Accumulator) : Bool :=
  Word.signWeight ≤ ac.magnitude

def toWord (ac : Accumulator) : Word :=
  Word.make ac.negative ac.magnitude

def toInt (ac : Accumulator) : Int :=
  if ac.negative then -(ac.magnitude : Int) else ac.magnitude

end Accumulator

structure Product where
  negative : Bool
  high : Nat
  low : Nat
  deriving DecidableEq, Repr

namespace Product

def ofWords (w v : Word) : Product :=
  let product := w.magnitude * v.magnitude
  ⟨w.negative != v.negative,
    product / Word.signWeight % Word.signWeight,
    product % Word.signWeight⟩

def accumulator (p : Product) : Word :=
  Word.make p.negative p.high

def quotient (p : Product) : Word :=
  Word.make p.negative p.low

end Product

end Ibm704

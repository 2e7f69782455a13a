import Ibm704.Word.Address

/-!
# Storage words

A word has a sign in bit 35 and a magnitude of 35 bits below it.  Words travel
in 64 bits; everything that reads a sign or a magnitude ignores the bits above,
and every sum and product returns a word of 36 bits.

Instructions divide a word into fields.  Reading a field and storing into one
are defined for any position and width; a field that starts at bit 64 or above
is empty.
-/

namespace Ibm704

structure Word where
  bits : BitVec 64
  deriving DecidableEq, Repr

namespace Word

def ofNat (n : Nat) : Word :=
  ⟨BitVec.ofNat 64 n⟩

def toNat (w : Word) : Nat :=
  w.bits.toNat

def zero : Word :=
  ofNat 0

instance : Inhabited Word :=
  ⟨zero⟩

/-!
# Sign and magnitude

Bit 35 is the sign and the bits below it are the magnitude.  There are two zeros, both
of which have the value 0.
-/

def signWeight : Nat := 0o400000000000

def make (negative : Bool) (magnitude : Nat) : Word :=
  ofNat ((if negative then signWeight else 0) + magnitude % signWeight)

def negative (w : Word) : Bool :=
  w.toNat / signWeight % 2 == 1

def magnitude (w : Word) : Nat :=
  w.toNat % signWeight

def stored (w : Word) : Word :=
  ofNat (w.toNat % (2 * signWeight))

def toInt (w : Word) : Int :=
  if w.negative then -(w.magnitude : Int) else w.magnitude

def ofInt (n : Int) : Word :=
  make (n < 0) n.natAbs

/-!
# Arithmetic

Sums and products keep the low 35 bits of the magnitude.
-/

/-- Sum of two signed magnitudes: magnitudes of one sign are added, otherwise the smaller is
taken from the larger, whose sign stays; at a tie the first sign stays. -/
def signedSum (first : Bool × Nat) (second : Bool × Nat) : Bool × Nat :=
  if first.1 = second.1 then
    (first.1, first.2 + second.2)
  else if second.2 ≤ first.2 then
    (first.1, first.2 - second.2)
  else
    (second.1, second.2 - first.2)

def neg (w : Word) : Word :=
  make (!w.negative) w.magnitude

def add (w v : Word) : Word :=
  let sum := signedSum (w.negative, w.magnitude) (v.negative, v.magnitude)
  make sum.1 sum.2

def sub (w v : Word) : Word :=
  w.add v.neg

def mul (w v : Word) : Word :=
  make (w.negative != v.negative) (w.magnitude * v.magnitude)

/-!
# Fields

A field is a run of `width` bits from bit `shift` up.  A mask has 64 bits at most.
-/

structure Field where
  shift : Nat
  width : Nat
  deriving DecidableEq, Repr

namespace Field

def lowMask (width : Nat) : BitVec 64 :=
  BitVec.allOnes 64 >>> (64 - width)

def mask (f : Field) : BitVec 64 :=
  lowMask f.width <<< min f.shift 64

def address : Field := ⟨0, 15⟩
def tag : Field := ⟨15, 3⟩
def decrement : Field := ⟨18, 15⟩
def signedPrefix : Field := ⟨33, 3⟩
def signedOperation : Field := ⟨24, 12⟩

end Field

def get (w : Word) (f : Field) : Nat :=
  ((w.bits >>> f.shift) &&& Field.lowMask f.width).toNat

def set (w : Word) (f : Field) (value : Nat) : Word :=
  ⟨(w.bits &&& ~~~f.mask) ||| ((BitVec.ofNat 64 value <<< min f.shift 64) &&& f.mask)⟩

def address (w : Word) : Address :=
  Address.ofNat (w.get .address)

def tag (w : Word) : Nat :=
  w.get .tag

def decrement (w : Word) : Nat :=
  w.get .decrement

def withAddress (w : Word) (a : Address) : Word :=
  w.set .address a.val

def withTag (w : Word) (tag : Nat) : Word :=
  w.set .tag tag

def withDecrement (w : Word) (decrement : Nat) : Word :=
  w.set .decrement decrement

def or (w v : Word) : Word :=
  ⟨w.bits ||| v.bits⟩

/-! # Printing -/

def toOctal (w : Word) : Text :=
  Text.zeroPadded 8 12 w.stored.toNat

def toSignedOctal (w : Word) : Text :=
  Text.ofChar (if w.negative then '-' else '+') ++ Text.zeroPadded 8 12 w.magnitude

end Word

end Ibm704

import Ibm704.Text.Number

/-!
# Addresses

Core has 32768 locations, so address arithmetic is done modulo their number.  An address
is nevertheless kept in 16 bits: the end of a run at the top of core is 32768,
and a counter may be started beyond core, where it stays until the first sum
reduces it.
-/

namespace Ibm704

def coreSize : Nat := 32768

/-- A location, or the bound just after the last one. -/
structure Address where
  val : Nat
  isLt : val < 65536
  deriving DecidableEq, Repr

namespace Address

def ofNat (n : Nat) : Address :=
  ⟨n % 65536, Nat.mod_lt n (by decide)⟩

def ofInt (n : Int) : Address :=
  ⟨(n % 32768).toNat, by omega⟩

def zero : Address :=
  ofNat 0

instance : Inhabited Address :=
  ⟨zero⟩

def add (a : Address) (delta : Int) : Address :=
  ofInt (a.val + delta)

def wrapped (a : Address) : Address :=
  ofInt a.val

def toText (a : Address) : Text :=
  Text.zeroPadded 8 5 a.val

@[simp] theorem ofInt_val (n : Int) : (ofInt n).val = (n % 32768).toNat := rfl

theorem ofInt_val_lt (n : Int) : (ofInt n).val < coreSize := by
  simp only [ofInt_val, coreSize]
  omega

theorem add_val_lt (a : Address) (delta : Int) : (a.add delta).val < coreSize :=
  ofInt_val_lt _

end Address

/-- The low `bits` bits of an integer in two's complement form, 64 bits at most. -/
def lowBits (bits : Nat) (n : Int) : Nat :=
  (n % ((1 <<< min bits 64 : Nat) : Int)).toNat

end Ibm704

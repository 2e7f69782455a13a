import Ibm704.Number.Double

/-!
# Floating point words

The magnitude of a floating point word holds an eight bit characteristic, which
is the exponent plus 128, over a fraction of 27 bits.
-/

namespace Ibm704
namespace FloatWord

def fractionLimit : Nat := 0o1000000000

def roundedFraction (d : Double) : Nat :=
  Double.roundUp d.significand (27 - bitLength d.significand)

def exponentOf (d : Double) : Int :=
  bitLength d.significand + d.exponent

/-- A characteristic over a fraction of 27 bits.  Below the least characteristic everything is 0;
of a characteristic beyond 255 only the low eight bits are kept. -/
def compose (characteristic : Int) (fraction : Nat) : Nat :=
  if characteristic < 0 then 0 else characteristic.toNat % 256 * fractionLimit + fraction

def encode (d : Double) : Nat :=
  if d.significand = 0 then
    0
  else if roundedFraction d = fractionLimit then
    compose (exponentOf d + 129) (fractionLimit / 2)
  else
    compose (exponentOf d + 128) (roundedFraction d)

def decode (magnitude : Nat) : Double :=
  let fraction : Nat := magnitude % fractionLimit
  let characteristic : Nat := magnitude / fractionLimit % 256
  ⟨fraction, (characteristic : Int) - 155⟩

end FloatWord
end Ibm704

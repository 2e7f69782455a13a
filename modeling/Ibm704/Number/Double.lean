/-!
# Doubles as exact numbers

A finite double is read as the exact number `significand * 2 ^ exponent`; its
sign plays no part here.  A decimal number is brought to the nearest double, ties
going to the even significand, with the usual gradual loss of places below
`2 ^ (-1022)` and a failure at `2 ^ 1024`.
-/

namespace Ibm704

/-- The magnitude `significand * 2 ^ exponent` of a double. -/
structure Double where
  significand : Nat
  exponent : Int
  deriving DecidableEq, Repr

def bitLength (n : Nat) : Nat :=
  if n = 0 then 0 else n.log2 + 1

namespace Double

def zero : Double :=
  ⟨0, 0⟩

/-!
# The 64-bit form

Only magnitudes of finite doubles have this form.
-/

def ofBits (bits : Nat) : Double :=
  let fraction : Nat := bits % (1 <<< 52)
  let biased : Nat := (bits >>> 52) % 2048
  if biased = 0 then ⟨fraction, -1074⟩ else ⟨(1 <<< 52) + fraction, (biased : Int) - 1075⟩

def toBits (d : Double) : Nat :=
  if d.significand = 0 then
    0
  else
    let places := bitLength d.significand
    let biased := places + d.exponent + 1022
    if biased ≤ 0 then
      d.significand <<< (d.exponent + 1074).toNat
    else
      (biased.toNat <<< 52) + ((d.significand <<< (53 - places)) - (1 <<< 52))

/-!
# Rounding

A quotient of integers is rounded to 53 places, ties going to the even side; rounding
may add a place, which then is 0.  Shifts round ties up.
-/

def roundToEven (num den : Nat) : Nat :=
  let quotient := num / den
  let twice := 2 * (num % den)
  if den < twice ∨ (twice = den ∧ quotient % 2 = 1) then quotient + 1 else quotient

def roundUp (n : Nat) : (places : Int) → Nat
  | .ofNat k => n <<< k
  | .negSucc k => (n + (1 <<< k)) >>> (k + 1)

def floorLog2 (num den : Nat) : Int :=
  let guess : Int := (num.log2 : Int) - den.log2
  let reached : Bool :=
    match guess with
    | .ofNat k => den <<< k ≤ num
    | .negSucc k => den ≤ num <<< (k + 1)
  if reached then guess else guess - 1

def ofRounded (significand : Nat) (exponent : Int) : Double :=
  if significand = 0 then
    zero
  else if significand = 1 <<< 53 then
    ⟨1 <<< 52, exponent + 1⟩
  else
    ⟨significand, exponent⟩

def ofQuotient? (num den : Nat) : Option Double :=
  if num = 0 then
    some zero
  else
    let exponent := max (floorLog2 num den - 52) (-1074)
    let significand :=
      match exponent with
      | .ofNat k => roundToEven num (den <<< k)
      | .negSucc k => roundToEven (num <<< (k + 1)) den
    if (bitLength significand : Int) + exponent ≤ 1024 then
      some (ofRounded significand exponent)
    else
      none

/-- The double nearest to `digits * 10 ^ exponent`, unless it is too large for one.  The number of
decimal places before the point decides far-off cases at once. -/
def ofDecimal? (digits : Nat) (exponent : Int) : Option Double :=
  if digits = 0 then
    some zero
  else
    let point : Int := (Nat.toDigits 10 digits).length + exponent
    if 310 < point then
      none
    else if point < -330 then
      some zero
    else
      match exponent with
      | .ofNat k => ofQuotient? (digits * Nat.pow 10 k) 1
      | .negSucc k => ofQuotient? digits (Nat.pow 10 (k + 1))

/-- The low 35 bits of the integer nearest to the double moved up by `places` bits, ties going up.
Beyond bit 34 nothing is left, and a value below one half gives 0. -/
def scaledMagnitude (d : Double) (places : Int) : Nat :=
  let exponent := d.exponent + places
  if 35 ≤ exponent then
    0
  else if bitLength d.significand + exponent < 0 then
    0
  else
    roundUp d.significand exponent % (1 <<< 35)

end Double

end Ibm704

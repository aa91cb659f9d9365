import TicketPool.Text.Digit

/-!
# Doubles

A double is a pattern of 64 bits: a sign, eleven bits of exponent and 52 bits of
fraction.  A finite one stands for `±m · 2^q` with integers `m` and `q`.  Rounding takes
a nonnegative fraction `num / den` to the nearest double, a tie to the even one, and what
is too large to infinity; the product and the quotient are rounded from the exact value.
Everything here is arithmetic of natural numbers.
-/

namespace TicketPool

/-- A double, by its bits. -/
structure Binary64 where
  bits : UInt64
deriving DecidableEq, Repr, Inhabited

namespace Binary64

def twoTo (k : Nat) : Nat :=
  Nat.pow 2 k

/-- The power 52 of two: the bit in front of the fraction, in a full significand. -/
def hiddenBit : Nat :=
  4503599627370496

/-- The power 63 of two: the bit in front of all others. -/
def signBit : Nat :=
  9223372036854775808

def isNegative (x : Binary64) : Bool :=
  signBit ≤ x.bits.toNat

def magnitude (x : Binary64) : Nat :=
  x.bits.toNat % signBit

def exponentBits (x : Binary64) : Nat :=
  x.magnitude / hiddenBit

/-- Neither infinite nor a NaN. -/
def isFinite (x : Binary64) : Bool :=
  x.exponentBits < 2047

/-- The integer `m` in the value `±m · 2^q`. -/
def significand (x : Binary64) : Nat :=
  if x.exponentBits = 0 then x.magnitude % hiddenBit else x.magnitude % hiddenBit + hiddenBit

/-- The integer `q` in the value `±m · 2^q`. -/
def scale (x : Binary64) : Int :=
  (max x.exponentBits 1 : Nat) - 1075

/-- The numerator of the value as a fraction, without its sign. -/
def numerator (x : Binary64) : Nat :=
  x.significand * twoTo x.scale.toNat

def denominator (x : Binary64) : Nat :=
  twoTo (-x.scale).toNat

def infinityBits : Nat :=
  2047 * hiddenBit

/-- The double with the given sign and bits below it. -/
def ofMagnitude (negative : Bool) (magnitude : Nat) : Binary64 :=
  ⟨UInt64.ofNat (if negative then signBit + magnitude else magnitude)⟩

def infinity : Binary64 :=
  ofMagnitude false infinityBits

/-- The usual value that is not a number. -/
def nan : Binary64 :=
  ofMagnitude false (infinityBits + hiddenBit / 2)

def neg (x : Binary64) : Binary64 :=
  ofMagnitude (!x.isNegative) x.magnitude

def isZero (x : Binary64) : Bool :=
  x.magnitude = 0

/-- The quotient rounded to the nearest integer, a tie to the even one. -/
def roundDiv (num den : Nat) : Nat :=
  let quotient := num / den
  let twice := 2 * (num % den)
  if twice < den ∨ twice = den ∧ quotient % 2 = 0 then quotient else quotient + 1

/-- The exponent `q ≥ -1074` for which `num / den` lies between `2^52 · 2^q` and
`2^53 · 2^q`, or the least one if the fraction is smaller than that. -/
def fitScale (num den : Nat) : Int :=
  let guess : Int := (num.log2 : Int) - den.log2 - 53
  let scale := if num * twoTo (-(guess + 53)).toNat < den * twoTo (guess + 53).toNat then
    guess else guess + 1
  max scale (-1074)

/-- The nonnegative double nearest to `num / den`, for a positive `den`. -/
def ofRatio (num den : Nat) : Binary64 :=
  if num = 0 then
    ofMagnitude false 0
  else
    let q := fitScale num den
    let m := roundDiv (num * twoTo (-q).toNat) (den * twoTo q.toNat)
    ofMagnitude false (min ((q + 1074).toNat * hiddenBit + m) infinityBits)

/-- The double nearest to a natural number. -/
def ofNat (n : Nat) : Binary64 :=
  ofRatio n 1

def mul (x y : Binary64) : Binary64 :=
  ofRatio (x.numerator * y.numerator) (x.denominator * y.denominator)

/-- The quotient of two finite nonnegative doubles, the second of them positive. -/
def div (x y : Binary64) : Binary64 :=
  ofRatio (x.numerator * y.denominator) (x.denominator * y.numerator)

/-- The double nearest to a power of ten. -/
def tenPow (k : Nat) : Binary64 :=
  ofNat (Digit.weight k)

example : (ofNat 1).bits = 0x3FF0000000000000 := by decide +kernel
example : (ofRatio 1 10).bits = 0x3FB999999999999A := by decide +kernel
example : (ofRatio 1 (2 ^ 1074)).bits = 1 := by decide +kernel
example : (ofRatio 1 (2 ^ 1075)).bits = 0 := by decide +kernel
example : (ofNat (2 ^ 53 + 1)) = ofNat (2 ^ 53) := by decide +kernel
example : ofNat (10 ^ 309) = infinity := by decide +kernel

end Binary64

end TicketPool

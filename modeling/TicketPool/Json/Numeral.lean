import TicketPool.Decimal.Shortest

/-!
# Numbers in JSON

A numeral is the text of a number, split into its parts.  Its value is an integer if it
is written as one and fits 64 bits with or without a sign; otherwise it is a double.

The double of a numeral is found in two roundings.  The digits are gathered from the
left into a 64-bit word while they fit, the word is rounded to a double, and the double
is multiplied or divided by the double nearest to a power of ten.  A numeral whose double
would be infinite has no value.
-/

namespace TicketPool.Json

/-- The value of a numeral. -/
inductive Number where
  | int (value : Int)
  | float (value : Binary64)
deriving DecidableEq, Repr

namespace Number

/-- The least integer of 64 bits with a sign. -/
def least : Int :=
  -9223372036854775808

/-- The greatest integer of 64 bits without a sign. -/
def greatest : Int :=
  18446744073709551615

/-- The numbers that occur: integers of 64 bits, with or without a sign, and finite
doubles. -/
def Proper : Number → Prop
  | int n => least ≤ n ∧ n ≤ greatest
  | float x => x.isFinite

instance : (n : Number) → Decidable n.Proper
  | int n => inferInstanceAs (Decidable (least ≤ n ∧ n ≤ greatest))
  | float x => inferInstanceAs (Decidable (x.isFinite = true))

/-- The digits of an integer, behind a sign if it is negative. -/
def intText (n : Int) : List Char :=
  if n < 0 then '-' :: Digit.numeral n.natAbs else Digit.numeral n.natAbs

def chars : Number → List Char
  | int n => intText n
  | float x => x.text

def toDouble : Number → Binary64
  | int n => if n < 0 then (Binary64.ofNat n.natAbs).neg else Binary64.ofNat n.natAbs
  | float x => x

/-- A number as a word, if it is an integer that fits. -/
def word? : Number → Option UInt64
  | int n => if 0 ≤ n ∧ n ≤ greatest then some (UInt64.ofNat n.toNat) else none
  | float _ => none

end Number

/-- The parts of a number's text.  A number without a point has no fraction digits. -/
structure Numeral where
  negative : Bool
  whole : List Char
  fraction : List Char
  /-- Whether the exponent is negative, and its digits. -/
  exponent : Option (Bool × List Char)
deriving DecidableEq, Repr

namespace Numeral

def exponent? : List Char → Option (Bool × List Char)
  | '-' :: run => digits? true run
  | '+' :: run => digits? false run
  | run => digits? false run
where
  /-- Digits to the end, at least one. -/
  digits? (negative : Bool) (run : List Char) : Option (Bool × List Char) :=
    if run ≠ [] ∧ run.all Char.isDigit then some (negative, run) else none

def tail? (negative : Bool) (whole : List Char) : List Char → Option Numeral
  | [] => some ⟨negative, whole, [], none⟩
  | '.' :: rest =>
    let fraction := rest.takeWhile Char.isDigit
    if fraction = [] then none
    else match rest.dropWhile Char.isDigit with
      | [] => some ⟨negative, whole, fraction, none⟩
      | c :: run =>
        if c = 'e' ∨ c = 'E' then
          (exponent? run).map fun e ↦ ⟨negative, whole, fraction, some e⟩
        else none
  | c :: run =>
    if c = 'e' ∨ c = 'E' then
      (exponent? run).map fun e ↦ ⟨negative, whole, [], some e⟩
    else none

/-- Reads a number without its sign: no zero may stand in front of another digit. -/
def unsigned? (negative : Bool) (run : List Char) : Option Numeral :=
  let whole := run.takeWhile Char.isDigit
  if whole = ['0'] ∨ whole ≠ [] ∧ whole.head? ≠ some '0' then
    tail? negative whole (run.dropWhile Char.isDigit)
  else none

def ofChars? : List Char → Option Numeral
  | '-' :: run => unsigned? true run
  | run => unsigned? false run

/-- Gathers digits behind `start` while the number fits a word; the number, and the
digits left over. -/
def gather (start : Nat) : List Char → Nat × List Char
  | [] => (start, [])
  | c :: run =>
    let next := 10 * start + (c.toNat - '0'.toNat)
    if next < UInt64.size then gather next run else (start, c :: run)

/-- The double `x / 10^k`, rounded after each step; no step divides by more than
`10^308`. -/
def scaleDown (x : Binary64) (k : Nat) : Binary64 :=
  if k ≤ 308 then x.div (Binary64.tenPow k)
  else if k ≤ 616 then
    (x.div (Binary64.tenPow 308)).div (Binary64.tenPow (k - 308))
  else Binary64.ofNat 0

/-- The double `x · 10^k`, and infinity if `10^k` is no double and `x` is not zero. -/
def scaleUp (x : Binary64) (k : Nat) : Binary64 :=
  if k ≤ 308 then x.mul (Binary64.tenPow k)
  else if x.isZero then x
  else Binary64.infinity

def finite? (x : Binary64) : Option Number :=
  if x.isFinite then some (.float x) else none

/-- The double of a word times a power of ten, if it is finite. -/
def double? (negative : Bool) (word : Nat) (exponent : Int) : Option Number :=
  let x := Binary64.ofNat word
  let scaled := if 0 ≤ exponent then scaleUp x exponent.toNat
    else scaleDown x (-exponent).toNat
  finite? (if negative then scaled.neg else scaled)

/-- The value of digits that are written as an integer. -/
def integer? (negative : Bool) (word : Nat) : Option Number :=
  if negative then
    if word = 0 ∨ (-word : Int) < Number.least then double? true word 0 else some (.int (-word))
  else some (.int word)

/-- The value of a numeral.  Exponents of more than 31 bits stand for infinity or zero. -/
def number? (n : Numeral) : Option Number :=
  let (word, dropped) := gather 0 n.whole
  let (fullWord, skipped) := gather word n.fraction
  let shift : Int := dropped.length - (n.fraction.length - skipped.length : Nat)
  match n.exponent with
  | none =>
    if n.fraction = [] ∧ dropped = [] then integer? n.negative word
    else double? n.negative fullWord shift
  | some (down, run) =>
    let e := Digit.number run
    if e < UInt32.size / 2 then double? n.negative fullWord (if down then shift - e else shift + e)
    else if fullWord = 0 ∨ down then double? n.negative 0 0
    else none

end Numeral

end TicketPool.Json

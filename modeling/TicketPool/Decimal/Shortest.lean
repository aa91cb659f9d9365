import TicketPool.Decimal.Binary64
import TicketPool.Text.Digit

/-!
# The shortest decimal text of a double

Among all decimal numbers that round to a given double, the text shows one with the
fewest digits, and of those the one nearest to the double.  The numbers that round to
`m · 2^q` lie between the midpoints to its two neighbours; the midpoints count when `m`
is even.
-/

namespace TicketPool.Binary64

/-- A decimal number `digits · 10^exponent`. -/
structure Decimal where
  digits : Nat
  exponent : Int
deriving DecidableEq, Repr

/-- The bounds of the numbers that round to a positive finite double, and the double
itself, as numerators over one denominator. -/
structure Interval where
  low : Nat
  value : Nat
  high : Nat
  denominator : Nat
  closed : Bool
deriving DecidableEq, Repr

/-- The interval of the numbers that round to `x`.  Below a power of two the gap to the
next double is half as wide. -/
def interval (x : Binary64) : Interval :=
  let m := x.significand
  let unit := twoTo x.scale.toNat
  let narrow := m = hiddenBit ∧ 1 < x.exponentBits
  { low := (4 * m - if narrow then 1 else 2) * unit
    value := 4 * m * unit
    high := (4 * m + 2) * unit
    denominator := 4 * twoTo (-x.scale).toNat
    closed := m % 2 = 0 }

/-- Whether `n · 10^k` lies in the interval. -/
def Interval.holds (i : Interval) (n : Nat) (k : Int) : Bool :=
  let scaled := n * Digit.weight k.toNat * i.denominator
  let low := i.low * Digit.weight (-k).toNat
  let high := i.high * Digit.weight (-k).toNat
  if i.closed then low ≤ scaled && scaled ≤ high else low < scaled && scaled < high

/-- The multiple of `10^k` in the interval that is nearest to the value, a tie going to
the even multiple. -/
def Interval.nearest? (i : Interval) (k : Int) : Option Nat :=
  let num := i.value * Digit.weight (-k).toNat
  let den := i.denominator * Digit.weight k.toNat
  let below := num / den
  let best := roundDiv num den
  let other := if best = below then below + 1 else below
  if i.holds best k then some best
  else if i.holds other k then some other
  else none

/-- The first grid, counting down from `10^k`, that has a point in the interval. -/
def Interval.search (i : Interval) (k : Int) : Nat → Decimal
  | 0 => ⟨i.value / i.denominator, 0⟩
  | fuel + 1 =>
    match i.nearest? k with
    | some n => ⟨n, k⟩
    | none => i.search (k - 1) fuel

/-- The number of decimal digits of a fraction before the point, less one: the exponent
of its first digit, for a positive fraction. -/
def leadingExponent (num den : Nat) : Int :=
  if den ≤ num then
    (Digit.numeral (num / den)).length - 1
  else
    -((Digit.numeral ((den - 1) / num)).length : Int)

/-- The shortest decimal number that rounds to a positive finite double. -/
def shortest (x : Binary64) : Decimal :=
  let i := x.interval
  i.search (leadingExponent i.value i.denominator + 1) 20

/-- The digits of a decimal number without the zeros at the end, and the exponent that
its first digit has. -/
def Decimal.scientific (d : Decimal) : List Char × Int :=
  let run := Digit.numeral d.digits
  ((run.reverse.dropWhile (· = '0')).reverse, d.exponent + run.length - 1)

/-- How a decimal number is laid out: positionally while the exponent of the first digit
is between the two bounds, and with an exponent otherwise. -/
structure Layout where
  leastPlain : Int
  mostPlain : Int
deriving DecidableEq, Repr

/-- Numbers from `0.00001` up to sixteen digits before the point stand positionally. -/
def layout : Layout := ⟨-5, 15⟩

/-- The positional text of digits whose first has exponent `e`, with at least one digit
on either side of the point. -/
def plain (digits : List Char) (e : Int) : List Char :=
  if e < 0 then
    '0' :: '.' :: List.replicate (-e - 1).toNat '0' ++ digits
  else
    let whole := digits.take (e.toNat + 1)
    let rest := digits.drop (e.toNat + 1)
    whole ++ List.replicate (e.toNat + 1 - whole.length) '0' ++ '.' ::
      (if rest = [] then ['0'] else rest)

/-- The text of digits whose first has exponent `e`, with that exponent behind. -/
def scientific (digits : List Char) (e : Int) : List Char :=
  digits.take 1 ++ (if digits.length ≤ 1 then [] else '.' :: digits.drop 1) ++
    'e' :: (if e < 0 then '-' else '+') :: Digit.numeral e.natAbs

def text (x : Binary64) : List Char :=
  let sign := if x.isNegative then ['-'] else []
  if x.isZero then
    sign ++ ['0', '.', '0']
  else
    let (digits, e) := x.shortest.scientific
    sign ++ if layout.leastPlain ≤ e ∧ e ≤ layout.mostPlain then plain digits e
      else scientific digits e

example : String.ofList (ofRatio 1 10).text = "0.1" := by decide +kernel
example : String.ofList (ofNat 5).text = "5.0" := by decide +kernel
example : String.ofList (ofNat (10 ^ 16)).text = "1e+16" := by decide +kernel
example : String.ofList (ofRatio 15 100000000).text = "1.5e-7" := by decide +kernel
example : String.ofList (ofRatio 1 100000).text = "0.00001" := by decide +kernel
example : String.ofList (ofMagnitude false 1).text = "5e-324" := by decide +kernel
example : String.ofList (ofNat 0).neg.text = "-0.0" := by decide +kernel

end TicketPool.Binary64

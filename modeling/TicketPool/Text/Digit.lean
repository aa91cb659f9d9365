/-!
# Decimal numerals

Numbers written in the ASCII digits.  A numeral is a run of digits; reading a run
as a 64-bit word fails when the run is empty, holds another character, or is too
large.
-/

namespace TicketPool.Digit

/-- The shortest numeral of a number: no leading zero, and `0` for zero. -/
def numeral (n : Nat) : List Char :=
  Nat.toDigits 10 n

/-- The numeral of `n` filled up with leading zeros to at least `width` digits. -/
def padded (width n : Nat) : List Char :=
  List.replicate (width - (numeral n).length) '0' ++ numeral n

def number (run : List Char) : Nat :=
  Nat.ofDigitChars 10 run 0

/-- What a digit counts for that has `places` digits behind it. -/
def weight (places : Nat) : Nat :=
  Nat.pow 10 places

/-- The 64-bit word that a nonempty run of ASCII digits stands for. -/
def word? (run : List Char) : Option UInt64 :=
  if run ≠ [] ∧ run.all Char.isDigit ∧ number run < UInt64.size then
    some (UInt64.ofNat (number run))
  else
    none

@[simp] theorem number_numeral (n : Nat) : number (numeral n) = n :=
  Nat.ofDigitChars_ten_toDigits

theorem numeral_ne_nil (n : Nat) : numeral n ≠ [] :=
  Nat.toDigits_ne_nil

theorem isDigit_of_mem_numeral {n : Nat} {c : Char} (h : c ∈ numeral n) : c.isDigit :=
  Nat.isDigit_of_mem_toDigits (by decide) (by decide) h

@[simp] theorem word?_numeral (w : UInt64) : word? (numeral w.toNat) = some w := by
  have digits : (numeral w.toNat).all Char.isDigit = true :=
    List.all_eq_true.mpr fun _ ↦ isDigit_of_mem_numeral
  have fits : w.toNat < UInt64.size := w.toNat_lt
  simp [word?, numeral_ne_nil, digits, fits]

end TicketPool.Digit

/-!
# The calendar

Dates of the Gregorian calendar, extended to all years, and their number of days from
1 January 1970.  The year 0 comes before the year 1.
-/

namespace TicketPool

/-- A day of the calendar. -/
structure Date where
  year : Int
  month : Nat
  day : Nat
deriving DecidableEq, Repr

namespace Date

/-- Every fourth year is a leap year, but of the full centuries only every fourth. -/
def isLeap (year : Int) : Bool :=
  year % 4 = 0 && (year % 100 ≠ 0 || year % 400 = 0)

def monthLength (year : Int) (month : Nat) : Nat :=
  if month = 2 then (if isLeap year then 29 else 28)
  else if month = 4 ∨ month = 6 ∨ month = 9 ∨ month = 11 then 30
  else 31

def months : List Nat :=
  [1, 2, 3, 4, 5, 6, 7, 8, 9, 10, 11, 12]

def IsValid (d : Date) : Prop :=
  d.month ∈ months ∧ 1 ≤ d.day ∧ d.day ≤ monthLength d.year d.month

instance (d : Date) : Decidable d.IsValid :=
  inferInstanceAs (Decidable (_ ∧ _ ∧ _))

/-- The days from 1 January of the year 1 to 1 January of a year. -/
def daysBeforeYear (year : Int) : Int :=
  365 * (year - 1) + (year - 1) / 4 - (year - 1) / 100 + (year - 1) / 400

def daysBeforeMonth (year : Int) (month : Nat) : Nat :=
  ((months.takeWhile (· < month)).map (monthLength year)).foldl (· + ·) 0

/-- The days from 1 January of the year 1 to 1 January 1970. -/
def epoch : Int :=
  719162

/-- The days from 1 January 1970 to a date. -/
def toDays (d : Date) : Int :=
  daysBeforeYear d.year + daysBeforeMonth d.year d.month + d.day - 1 - epoch

/-- The year of a day, counted from 1 January of the year 1.  The mean length of a year
finds the year or one next to it. -/
def yearOf (n : Int) : Int :=
  let guess := 400 * n / 146097 + 1
  if n < daysBeforeYear guess then guess - 1
  else if daysBeforeYear (guess + 1) ≤ n then guess + 1
  else guess

/-- The month and day of the day that comes `rest` days after the first of these months. -/
def monthDay (year : Int) (rest : Nat) : List Nat → Nat × Nat
  | [] => (0, 0)
  | month :: later =>
    if rest < monthLength year month then (month, rest + 1)
    else monthDay year (rest - monthLength year month) later

/-- The date that comes a number of days after 1 January 1970. -/
def ofDays (n : Int) : Date :=
  let year := yearOf (n + epoch)
  let (month, day) := monthDay year (n + epoch - daysBeforeYear year).toNat months
  ⟨year, month, day⟩

example : toDays ⟨1970, 1, 1⟩ = 0 := by decide
example : toDays ⟨2000, 3, 1⟩ = 11017 := by decide
example : ofDays 11016 = ⟨2000, 2, 29⟩ := by decide
example : ofDays (-1) = ⟨1969, 12, 31⟩ := by decide
example : ofDays (toDays ⟨-1, 12, 31⟩ + 1) = ⟨0, 1, 1⟩ := by decide

end Date

end TicketPool

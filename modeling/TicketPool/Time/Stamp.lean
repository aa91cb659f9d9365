import TicketPool.Text.Blank
import TicketPool.Text.Digit
import TicketPool.Time.Instant

/-!
# Time stamps

An instant is written as a date, a `T`, a time of day with as many groups of three
fraction digits as it needs, and a `Z`.  A leap second is written as second 60, and years
of other than four digits carry a sign.

The reader is more liberal.  Blanks may stand before each number and before each dash and
colon, numbers may be shorter, the fraction may have any number of digits, and a zone
other than `Z` is taken into account.
-/

namespace TicketPool.Instant

def yearText (year : Int) : List Char :=
  if 0 ≤ year ∧ year ≤ 9999 then Digit.padded 4 year.natAbs
  else (if year < 0 then '-' else '+') :: Digit.padded 4 year.natAbs

def fractionText (nanos : Nat) : List Char :=
  if nanos = 0 then []
  else if nanos % 1000000 = 0 then '.' :: Digit.padded 3 (nanos / 1000000)
  else if nanos % 1000 = 0 then '.' :: Digit.padded 6 (nanos / 1000)
  else '.' :: Digit.padded 9 nanos

def chars (t : Instant) : List Char :=
  let date := Date.ofDays (t.secs / 86400)
  let time := (t.secs % 86400).toNat
  yearText date.year ++ '-' :: Digit.padded 2 date.month ++ '-' :: Digit.padded 2 date.day ++
    'T' :: Digit.padded 2 (time / 3600) ++ ':' :: Digit.padded 2 (time / 60 % 60) ++
    ':' :: Digit.padded 2 (time % 60 + t.nanos / 1000000000) ++
    fractionText (t.nanos % 1000000000) ++ ['Z']

def text (t : Instant) : String :=
  String.ofList t.chars

namespace Stamp

/-- The parts of a time stamp, the zone in minutes east. -/
structure Parts where
  date : Date
  hour : Nat
  minute : Nat
  second : Nat
  nanos : Nat
  zone : Int
deriving DecidableEq, Repr

def char? (c : Char) : List Char → Option (List Char)
  | d :: rest => if d = c then some rest else none
  | [] => none

/-- A number of at most `most` digits. -/
def number? (most : Nat) (text : List Char) : Option (Nat × List Char) :=
  let run := (text.take most).takeWhile Char.isDigit
  if run = [] then none else some (Digit.number run, text.drop run.length)

/-- A year: at most four digits, or a sign and any number of digits. -/
def year? : List Char → Option (Int × List Char)
  | '-' :: text => (number? text.length text).map fun (n, rest) ↦ (-n, rest)
  | '+' :: text => (number? text.length text).map fun (n, rest) ↦ (n, rest)
  | text => (number? 4 text).map fun (n, rest) ↦ (n, rest)

def separator? : List Char → Option (List Char)
  | c :: rest => if c = 'T' ∨ c = 't' ∨ c = ' ' then some rest else none
  | [] => none

/-- A fraction of a second in nanoseconds; digits behind the ninth are passed over. -/
def fraction? : List Char → Option (Nat × List Char)
  | '.' :: text =>
    (number? 9 text).map fun (n, rest) ↦
      (n * Digit.weight (9 - (text.length - rest.length)), rest.dropWhile Char.isDigit)
  | text => some (0, text)

def twoDigits? : List Char → Option (Nat × List Char)
  | c :: d :: rest =>
    if c.isDigit ∧ d.isDigit then some (Digit.number [c, d], rest) else none
  | _ => none

/-- A distance from the zone of `Z`: hours and minutes. -/
def distance? (text : List Char) : Option (Nat × List Char) := do
  let (hours, text) ← twoDigits? text
  let (minutes, text) ← twoDigits? (text.dropWhile fun c ↦ c = ':' || Blank.isBlank c)
  if minutes < 60 ∧ hours < 24 then pure (60 * hours + minutes, text) else none

/-- The zone, in minutes east. -/
def zone? : List Char → Option (Int × List Char)
  | 'Z' :: rest | 'z' :: rest => some (0, rest)
  | '+' :: text => (distance? text).map fun (n, rest) ↦ ((n : Int), rest)
  | '-' :: text | '\u2212' :: text => (distance? text).map fun (n, rest) ↦ (-(n : Int), rest)
  | u :: t :: c :: rest =>
    if u.toLower = 'u' ∧ t.toLower = 't' ∧ c.toLower = 'c' then some (0, rest) else none
  | _ => none

def parts? (text : List Char) : Option Parts := do
  let (year, text) ← year? (Blank.skip text)
  let text ← char? '-' (Blank.skip text)
  let (month, text) ← number? 2 (Blank.skip text)
  let text ← char? '-' (Blank.skip text)
  let (day, text) ← number? 2 (Blank.skip text)
  let text ← separator? text
  let (hour, text) ← number? 2 (Blank.skip text)
  let text ← char? ':' (Blank.skip text)
  let (minute, text) ← number? 2 (Blank.skip text)
  let text ← char? ':' (Blank.skip text)
  let (second, text) ← number? 2 (Blank.skip text)
  let (nanos, text) ← fraction? text
  let (zone, text) ← zone? (Blank.skip text)
  if Blank.skip text = [] then
    pure { date := ⟨year, month, day⟩, hour, minute, second, nanos, zone }
  else none

/-- Whether the parts name a moment of some day, and the day lies in the years that
instants can have. -/
def Parts.IsValid (p : Parts) : Prop :=
  p.date.IsValid ∧ -262143 ≤ p.date.year ∧ p.date.year ≤ 262142 ∧
    p.hour < 24 ∧ p.minute < 60 ∧ p.second ≤ 60

instance (p : Parts) : Decidable p.IsValid :=
  inferInstanceAs (Decidable (_ ∧ _ ∧ _ ∧ _ ∧ _ ∧ _))

/-- The instant that the parts name.  Second 60 is the leap second behind second 59. -/
def Parts.instant? (p : Parts) : Option Instant :=
  if p.IsValid then
    let minutes : Int := p.date.toDays * 1440 + p.hour * 60 + p.minute - p.zone
    if p.second = 60 then Instant.ofParts? (minutes * 60 + 59) (p.nanos + 1000000000)
    else Instant.ofParts? (minutes * 60 + p.second) p.nanos
  else none

end Stamp

def ofChars? (text : List Char) : Option Instant :=
  (Stamp.parts? text).bind Stamp.Parts.instant?

def ofText? (s : String) : Option Instant :=
  ofChars? s.toList

example : (ofText? "1970-01-01T00:00:00Z").map text = some "1970-01-01T00:00:00Z" := by
  decide +kernel
example : (ofText? " +10000 - 1-1t1 :2: 60.5 utc ").map text =
    some "+10000-01-01T01:02:60.500Z" := by decide +kernel
example : (ofText? "-0001-12-31 23:59:59.000000001-00 01").map text =
    some "0000-01-01T00:00:59.000000001Z" := by decide +kernel
example : (ofText? "2023-02-29T00:00:00Z").map text = none := by decide +kernel

end TicketPool.Instant

import TicketPool.Time.Calendar

/-!
# Instants

An instant is a number of seconds from 1 January 1970 and a rest in nanoseconds.  The
second after the last one of a minute can be a leap second, which counts as a rest of
more than a second; so instants are ordered by their seconds first and then by the rest.
-/

namespace TicketPool

/-- The first second of the first year, -262143. -/
def Instant.firstSecond : Int :=
  -8334601228800

/-- The last second of the last year, 262142. -/
def Instant.lastSecond : Int :=
  8210266876799

/-- A moment in time. -/
structure Instant where
  secs : Int
  nanos : Nat
  first_le : Instant.firstSecond ≤ secs
  le_last : secs ≤ Instant.lastSecond
  /-- These are the instants that seconds and nanoseconds name together, as a timestamp
  does: a rest of a second or more stands behind the last second of a minute only.  Setting
  the nanoseconds of an instant apart from its seconds could put such a rest behind any
  second, and nothing here does that. -/
  nanos_lt : nanos < 1000000000 ∨ nanos < 2000000000 ∧ secs % 60 = 59
deriving DecidableEq, Repr

namespace Instant

/-- The instant with the given seconds and nanoseconds, if there is one. -/
def ofParts? (secs : Int) (nanos : Nat) : Option Instant :=
  if h : firstSecond ≤ secs ∧ secs ≤ lastSecond ∧
      (nanos < 1000000000 ∨ nanos < 2000000000 ∧ secs % 60 = 59) then
    some ⟨secs, nanos, h.1, h.2.1, h.2.2⟩
  else
    none

/-- The latest instant that is not in a leap second. -/
def latest : Instant :=
  ⟨lastSecond, 999999999, by decide, by decide, by decide⟩

instance : Inhabited Instant := ⟨latest⟩

instance : LT Instant where
  lt a b := a.secs < b.secs ∨ a.secs = b.secs ∧ a.nanos < b.nanos

theorem lt_def {a b : Instant} :
    a < b ↔ a.secs < b.secs ∨ a.secs = b.secs ∧ a.nanos < b.nanos := Iff.rfl

instance (a b : Instant) : Decidable (a < b) :=
  decidable_of_iff _ lt_def.symm

/-- The milliseconds from 1 January 1970, and zero before. -/
def millis (t : Instant) : UInt64 :=
  UInt64.ofNat (t.secs * 1000 + (t.nanos / 1000000 : Nat)).toNat

/-- The instant of a number of milliseconds, or the latest one. -/
def ofMillis (ms : UInt64) : Instant :=
  (ofParts? (ms.toNat / 1000) (ms.toNat % 1000 * 1000000)).getD latest

/-- The instant a number of seconds and nanoseconds later, if there is one. -/
def later? (t : Instant) (secs nanos : Nat) : Option Instant :=
  let sum := t.nanos + nanos
  ofParts? (t.secs + secs + (sum / 1000000000 : Nat)) (sum % 1000000000)

example : (Date.toDays ⟨-262143, 1, 1⟩) * 86400 = firstSecond := by decide
example : (Date.toDays ⟨262142, 12, 31⟩) * 86400 + 86399 = lastSecond := by decide

end Instant

end TicketPool

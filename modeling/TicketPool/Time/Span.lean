/-!
# Spans of time

A span is a number of whole seconds and a rest in nanoseconds.  Ages and time limits
are compared in milliseconds, rounded down and capped at the largest 64-bit word;
timers run in whole milliseconds, rounded up.

A deadline is a reading of a clock that counts its seconds in a signed word, so there are
spans too long for one: a task that asks for a deadline beyond the end of the clock ends
there and then.  Only going to sleep is allowed for any span.
-/

namespace TicketPool

/-- Subtraction of words that stops at zero. -/
def monus (a b : UInt64) : UInt64 :=
  if b ≤ a then a - b else 0

theorem toNat_monus (a b : UInt64) : (monus a b).toNat = a.toNat - b.toNat := by
  unfold monus
  split
  · rename_i h
    exact UInt64.toNat_sub_of_le _ _ h
  · rename_i h
    have : a.toNat < b.toNat := by
      simpa [UInt64.le_iff_toNat_le] using h
    simp only [UInt64.toNat_zero]
    omega

/-- A length of time. -/
structure Span where
  secs : UInt64
  nanos : Nat
  nanos_lt : nanos < 1000000000 := by decide
deriving DecidableEq, Repr

namespace Span

instance : Inhabited Span := ⟨{ secs := 0, nanos := 0 }⟩

/-- The longest span. -/
def longest : Span where
  secs := UInt64.ofNat (UInt64.size - 1)
  nanos := 999999999

def ofMillis (ms : UInt64) : Span where
  secs := ms / 1000
  nanos := ms.toNat % 1000 * 1000000
  nanos_lt := by omega

/-- The span of so many seconds and so many nanoseconds; none if it is longer than the
longest. -/
def ofParts? (secs nanos : Nat) : Option Span :=
  if secs + nanos / 1000000000 < UInt64.size then
    some ⟨UInt64.ofNat (secs + nanos / 1000000000), nanos % 1000000000, by omega⟩
  else
    none

def isZero (d : Span) : Bool :=
  d.secs == 0 && d.nanos == 0

/-- The whole milliseconds in a span, at most the largest word. -/
def millis (d : Span) : UInt64 :=
  UInt64.ofNat (min (d.secs.toNat * 1000 + d.nanos / 1000000) (UInt64.size - 1))

/-- The first whole number of milliseconds that is no shorter than the span. -/
def ticks (d : Span) : Nat :=
  d.secs.toNat * 1000 + (d.nanos + 999999) / 1000000

/-- How long a timer of the span runs: it never ends at the time it is set. -/
def timer (d : Span) : Nat :=
  max 1 d.ticks

/-- A span in nanoseconds. -/
def length (d : Span) : Nat :=
  -- The number comes first: a product is unfolded along its second factor.
  1000000000 * d.secs.toNat + d.nanos

theorem length_le_timer (d : Span) : d.length ≤ d.timer * 1000000 := by
  unfold length timer ticks
  omega

/-- The first time, in nanoseconds, that a clock with a signed 64-bit word for its seconds
cannot show. -/
def clockEnd : Nat :=
  UInt64.size / 2 * 1000000000

/-- The time at which a span is over that starts at `now`, both in nanoseconds, if the clock
can show it. -/
def deadline? (d : Span) (now : Nat) : Option Nat :=
  if now + d.length < clockEnd then some (now + d.length) else none

theorem deadline?_eq_none_iff {d : Span} {now : Nat} :
    d.deadline? now = none ↔ clockEnd ≤ now + d.length := by
  simp [deadline?]

theorem deadline?_of_lt {d : Span} {now : Nat} (h : now + d.length < clockEnd) :
    d.deadline? now = some (now + d.length) :=
  if_pos h

/-- How long a task sleeps that goes to sleep at the millisecond `now`: thirty years if the
clock cannot show the end of the span. -/
def pause (d : Span) (now : Nat) : Nat :=
  if (d.deadline? (1000000 * now)).isSome then d.timer else 30 * 365 * 86400 * 1000

/-- The sum of two spans, or the longest span if the sum is longer. -/
def add (a b : Span) : Span :=
  (ofParts? (a.secs.toNat + b.secs.toNat) (a.nanos + b.nanos)).getD longest

instance : Add Span := ⟨add⟩

end Span

end TicketPool

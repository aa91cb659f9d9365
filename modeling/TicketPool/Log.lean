import TicketPool.Entry

/-!
# The log

The log keeps entries in the order of their ids, gives out the ids, and forgets its
oldest entries when it is trimmed.  Ids only ever grow, also after everything has been
trimmed, so the entries behind a cursor are found by binary search.
-/

namespace TicketPool

/-- The entries that are still kept, oldest first, and the source of ids. -/
structure Log where
  entries : Array Entry := #[]
  source : IdSource := {}
deriving DecidableEq, Repr, Inhabited

namespace Log

/-- Adds one entry while the clock reads `now`. -/
def push (log : Log) (now : UInt64) (fields : Fields) : Log where
  entries := log.entries.push ⟨log.source.nextId now, fields⟩
  source := log.source.advance now

/-- Adds entries, each with its reading of the clock.  Returns their ids in order. -/
def append (log : Log) : List (UInt64 × Fields) → List LogId × Log
  | [] => ([], log)
  | (now, fields) :: rest =>
    let (ids, appended) := (log.push now fields).append rest
    (log.source.nextId now :: ids, appended)

/-- The id of the newest entry that was ever added. -/
def lastId (log : Log) : Option LogId :=
  log.source.last

/-- The first position from `low` on, and before `high`, whose entry fails the test, if
the entries that pass it come first; `high` if all pass. -/
def boundary (entries : Array Entry) (passes : Entry → Bool) (low high : Nat)
    (bound : high ≤ entries.size) : Nat :=
  if less : low < high then
    let middle := (low + high) / 2
    have inside : (low + high) / 2 < entries.size := by omega
    if passes (entries[middle]) then
      boundary entries passes (middle + 1) high bound
    else
      boundary entries passes low middle (by omega)
  else
    low
termination_by high - low

/-- At most `count` entries behind the cursor, oldest first. -/
def after (log : Log) (cursor : LogId) (count : Nat) : List Entry :=
  let start := boundary log.entries (·.id ≤ cursor) 0 log.entries.size (Nat.le_refl _)
  (log.entries.extract start (start + count)).toList

/-- How many of the oldest entries come before an id. -/
def countBefore (log : Log) (least : LogId) : Nat :=
  log.entries.findIdx fun e ↦ !decide (e.id < least)

/-- Drops the oldest entries as long as they come before an id. -/
def trim (log : Log) (least : LogId) : Log :=
  { log with entries := log.entries.extract (log.countBefore least) log.entries.size }

end Log

end TicketPool

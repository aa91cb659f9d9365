import TicketPool.Log.Reader
import TicketPool.Settings

/-!
# Replicas

A replica is one cache's end of the log.  It sends batches of updates and reads the
updates of all caches from a cursor on.

A batch is written with one append of the updates that can be written.  Each of the
others fails on its own; if the append fails, or returns a wrong number of ids, all those
that could be written fail.  After every batch the log is trimmed to the age that tickets
may get.
-/

namespace TicketPool

/-- What sending needs of the log, with a state of type `σ`. -/
structure Backend (σ : Type) where
  append : List Fields → σ → Except PoolError (List LogId) × σ
  trim : LogId → σ → Except PoolError Nat × σ

/-- The log server as a backend, with the readings of its clock. -/
def LogServer.backend (readings : Nat → UInt64) : Backend LogServer where
  append batch server := server.append readings batch
  trim least server := server.trim least

namespace Replica

variable {σ : Type}

/-- Writes the entries of a batch, unless there are none. -/
def commit (backend : Backend σ) (entries : List Fields) (s : σ) :
    Except PoolError (List LogId) × σ :=
  if entries = [] then (.ok [], s)
  else
    match backend.append entries s with
    | (.error e, s) => (.error (.batchWriteFailed e.message), s)
    | (.ok ids, s) =>
      if ids.length = entries.length then (.ok ids, s)
      else (.error (.resultCountMismatch entries.length ids.length), s)

/-- The entries of those updates that can be written. -/
def entries (updates : List Update) : List Fields :=
  updates.filterMap fun u ↦ u.toFields.toOption

/-- The responses to updates.  The ids go to the updates that could be written, in
order. -/
def respond : List Update → Except PoolError (List LogId) → List Response
  | [], _ => []
  | u :: rest, outcome =>
    match u.toFields, outcome with
    | .error e, outcome => .failed u.key e :: respond rest outcome
    | .ok _, .error e => .failed u.key e :: respond rest (.error e)
    | .ok _, .ok (id :: ids) => .ok id.text :: respond rest (.ok ids)
    | .ok _, .ok [] =>
      .failed u.key (.internal "commit returned too few ids") :: respond rest (.ok [])

/-- The first id that a trim at `now` keeps. -/
def trimPoint (ticketTtl : Span) (now : UInt64) : LogId :=
  .ofMillis (monus now ticketTtl.millis)

def send (backend : Backend σ) (ticketTtl : Span) (now : UInt64) (updates : List Update)
    (s : σ) : List Response × σ :=
  let (outcome, s) := commit backend (entries updates) s
  let (_, s) := backend.trim (trimPoint ticketTtl now) s
  (respond updates outcome, s)

/-- The cursor from which a cache that starts at `now` reads. -/
def initialCursor (settings : Settings) (now : UInt64) : LogId :=
  .ofMillis (settings.initialCursor now)

/-- The updates among entries.  Entries that record none are passed over. -/
def updates (entries : List Entry) : List Update :=
  entries.filterMap fun e ↦ e.toUpdate.toOption

/-- The cursor behind entries. -/
def cursorAfter (cursor : LogId) (entries : List Entry) : LogId :=
  entries.foldl (fun _ e ↦ e.id) cursor

/-- The updates that a read delivers, and the cursor behind it.  A read that fails delivers
nothing. -/
def receive (cursor : LogId) : Except PoolError (List Entry) → List Update × LogId
  | .ok entries => (updates entries, cursorAfter cursor entries)
  | .error _ => ([], cursor)

/-- A poll during which nothing else happens: the updates, the cursor behind them, and how
long it waited.  The clock can show its deadline. -/
def poll (settings : Settings) (server : LogServer) (cursor : LogId) :
    List Update × LogId × Nat :=
  let reader := Reader.first server cursor settings.maxUpdatesPerPoll.toNat 0
    settings.pollWait.ticks
  let (waited, result) := reader.finish
  let (updates, cursor) := receive cursor result
  (updates, cursor, waited)

end Replica

end TicketPool

import TicketPool.PoolError
import TicketPool.Time.Span

/-!
# Settings of a cache

How long entries are kept, how updates are gathered into batches on the way out, and
how they are read and applied on the way in.  `Settings.validate` names the first flaw
that keeps a cache from starting.
-/

namespace TicketPool

/-- The settings of one cache. -/
structure Settings where
  /-- How long a ticket that waits for nothing is kept. -/
  ticketTtl : Span
  /-- How much longer than a ticket an assignment is kept. -/
  assignmentExtraTtl : Span
  /-- How long a cycle of the outgoing queue gathers requests. -/
  outgoingWait : Span
  /-- How many requests one batch holds. -/
  maxBatch : UInt64
  /-- How many requests may wait for the outgoing queue. -/
  queueCapacity : UInt64
  /-- How many entries one poll reads. -/
  maxUpdatesPerPoll : UInt64
  /-- How long a poll waits for the first entry, and the least time between two polls. -/
  pollWait : Span
  /-- The rest between two rounds of applying updates. -/
  applyInterval : Span
  /-- How long one round goes on applying updates. -/
  holdTimeout : Span
deriving DecidableEq, Repr

namespace Settings

def standard : Settings where
  ticketTtl := Span.ofMillis 600000
  assignmentExtraTtl := Span.ofMillis 600000
  outgoingWait := Span.ofMillis 100
  maxBatch := 5000
  queueCapacity := 10000
  maxUpdatesPerPoll := 20000
  pollWait := Span.ofMillis 100
  applyInterval := Span.ofMillis 100
  holdTimeout := Span.ofMillis 500

def fast : Settings where
  ticketTtl := Span.ofMillis 600000
  assignmentExtraTtl := Span.ofMillis 600000
  outgoingWait := Span.ofMillis 5
  maxBatch := 64
  queueCapacity := 256
  maxUpdatesPerPoll := 256
  pollWait := Span.ofMillis 10
  applyInterval := Span.ofMillis 5
  holdTimeout := Span.ofMillis 50

/-- What can be wrong with settings. -/
inductive Flaw where
  | noTicketTtl
  | noBatch
  | noUpdatesPerPoll
  | noPollWait
  | noHoldTimeout
  | queueBelowBatch (capacity batch : UInt64)
deriving DecidableEq, Repr

def Flaw.message : Flaw → String
  | noTicketTtl => "ticket_ttl must be > 0"
  | noBatch => "outgoing_max_batch_size must be > 0"
  | noUpdatesPerPoll => "incoming_max_updates_per_poll must be > 0"
  | noPollWait => "incoming_poll_wait_timeout must be > 0"
  | noHoldTimeout => "apply_hold_timeout must be > 0"
  | queueBelowBatch capacity batch =>
    "request_queue_capacity (" ++ toString capacity
      ++ ") must be >= outgoing_max_batch_size (" ++ toString batch ++ ")"

/-- The first flaw of the settings, if they have one. -/
def flaw? (s : Settings) : Option Flaw :=
  if s.ticketTtl.isZero then some .noTicketTtl
  else if s.maxBatch == 0 then some .noBatch
  else if s.maxUpdatesPerPoll == 0 then some .noUpdatesPerPoll
  else if s.pollWait.isZero then some .noPollWait
  else if s.holdTimeout.isZero then some .noHoldTimeout
  else if s.queueCapacity < s.maxBatch then
    some (.queueBelowBatch s.queueCapacity s.maxBatch)
  else none

def validate (s : Settings) : Except PoolError Unit :=
  match s.flaw? with
  | some flaw => .error (.configuration flaw.message)
  | none => .ok ()

def assignmentTtl (s : Settings) : Span :=
  s.ticketTtl + s.assignmentExtraTtl

/-- The millisecond from which a cache that starts at `now` reads the log: the earliest one
whose assignments are still kept at `now`. -/
def initialCursor (s : Settings) (now : UInt64) : UInt64 :=
  monus now s.assignmentTtl.millis

end Settings

end TicketPool

import TicketPool.LogId
import TicketPool.Store

/-!
# The sweep

A sweep drops what has been kept long enough.  It makes three passes: the inactive keys
that are older than a ticket may get, each with its ticket; the tickets whose own time is
over; and the assignments that are older than an assignment may get.  A key's age is
counted from the millisecond it names, so keys that name none never age.
-/

namespace TicketPool

/-- When a sweep happens and how long entries are kept. -/
structure SweepRule where
  now : Instant
  ticketTtl : Span
  assignmentTtl : Span
deriving DecidableEq, Repr

/-- Whether a key is older at `now`, both in milliseconds, than `ttl`. -/
def isAged (now ttl : UInt64) (key : String) : Bool :=
  match LogId.creationMillis? key with
  | some born => ttl < monus now born
  | none => false

/-- What a sweep has dropped and what is left. -/
structure SweepReport where
  inactiveExpired : Nat
  inactiveRemaining : Nat
  ticketsExpired : Nat
  ticketsRemaining : Nat
  assignmentsExpired : Nat
  assignmentsRemaining : Nat
deriving DecidableEq, Repr, Inhabited

def SweepReport.total (r : SweepReport) : Nat :=
  r.inactiveExpired + r.ticketsExpired + r.assignmentsExpired

namespace Store

/-- The marked keys that are older than a ticket may get. -/
def agedKeys (rule : SweepRule) (s : Store) : List String :=
  s.inactiveKeys.filter (isAged rule.now.millis rule.ticketTtl.millis)

def expiredKeys (rule : SweepRule) (s : Store) : List String :=
  (s.tickets.toList.filter fun (_, ticket) ↦ ticket.isExpiredAt rule.now).map (·.1)

/-- The keys of the assignments that are older than an assignment may get. -/
def agedAssignments (rule : SweepRule) (s : Store) : List String :=
  (s.assignments.toList.map (·.1)).filter (isAged rule.now.millis rule.assignmentTtl.millis)

/-- The writes of the first pass: each aged key loses its ticket and then its mark, so a
withdrawn ticket is never seen active. -/
def agedWrites (rule : SweepRule) (s : Store) : List Write :=
  (s.agedKeys rule).flatMap fun key ↦ [.dropTicket key, .unmark key]

/-- The writes of the second pass. -/
def expiredWrites (rule : SweepRule) (s : Store) : List Write :=
  (s.expiredKeys rule).map .dropTicket

/-- The writes of the third pass. -/
def assignmentWrites (rule : SweepRule) (s : Store) : List Write :=
  (s.agedAssignments rule).map .dropAssignment

/-- The store after the first pass. -/
def afterAged (rule : SweepRule) (s : Store) : Store :=
  s.performAll (s.agedWrites rule)

/-- The store after the first two passes. -/
def afterExpired (rule : SweepRule) (s : Store) : Store :=
  (s.afterAged rule).performAll ((s.afterAged rule).expiredWrites rule)

/-- All writes of a sweep.  Each pass looks at the store that the one before left. -/
def sweepWrites (rule : SweepRule) (s : Store) : List Write :=
  s.agedWrites rule ++ (s.afterAged rule).expiredWrites rule ++
    (s.afterExpired rule).assignmentWrites rule

def sweep (rule : SweepRule) (s : Store) : Store :=
  s.performAll (s.sweepWrites rule)

/-- What a sweep drops and leaves.  Each pass counts the entries that it finds and drops. -/
def sweepReport (rule : SweepRule) (s : Store) : SweepReport :=
  let swept := s.sweep rule
  { inactiveExpired := (s.agedKeys rule).length
    inactiveRemaining := swept.inactive.size
    ticketsExpired := ((s.agedKeys rule).filter s.containsTicket).length +
      ((s.afterAged rule).expiredKeys rule).length
    ticketsRemaining := swept.tickets.size
    assignmentsExpired := ((s.afterExpired rule).agedAssignments rule).length
    assignmentsRemaining := swept.assignments.size }

end Store

end TicketPool

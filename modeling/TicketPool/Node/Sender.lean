import TicketPool.Node.Feed
import TicketPool.Outgoing

/-!
# Senders

A sender commits requests in cycles.  A cycle takes requests into the batch in hand until
the batch is full or the time of the cycle is over, and then the batch is committed and the
next cycle begins; a cycle that cannot begin ends the sender.  When the sender is closed, it
commits the batch in hand first, and then all that is queued in full batches and one with
the rest.  Time is counted in milliseconds.
-/

namespace TicketPool

/-- What goes wrong when a batch is sent: too many responses, or too few if negative; a
call that never comes back; or a call that ends the sender. -/
structure Mishap where
  surplus : Int := 0
  stuck : Bool := false
  crash : Bool := false
deriving DecidableEq, Repr, Inhabited

def Mishap.distort (m : Mishap) (responses : List Response) : List Response :=
  responses.take (responses.length - (-m.surplus).toNat) ++
    List.replicate m.surplus.toNat (.ok "surplus")

/-- What a sender does. -/
inductive SendPhase where
  /-- It is about to begin a cycle. -/
  | resting
  /-- It gathers a batch until the end of the cycle. -/
  | gathering (cycleEnd : Nat)
  /-- It commits what is left, and begins no more cycles. -/
  | closing
  /-- It waits for a call that never comes back. -/
  | stuck
  /-- It has ended. -/
  | ended
deriving DecidableEq, Repr

namespace SendPhase

def takesRequests : SendPhase → Bool
  | gathering _ | closing => true
  | resting | stuck | ended => false

/-- The phase behind a cycle. -/
def behindCycle : SendPhase → SendPhase
  | gathering _ => resting
  | phase => phase

/-- The phase of a sender that begins no more cycles. -/
def close : SendPhase → SendPhase
  | resting => closing
  | phase => phase

end SendPhase

/-- A sender and its queue. -/
structure Sender where
  /-- How long a cycle lasts. -/
  wait : Span
  ticketTtl : Span
  outgoing : Outgoing
  phase : SendPhase := .resting
  mishap : Mishap := {}
  /-- When batches were sent. -/
  sentAt : List Nat := []
deriving DecidableEq, Repr

namespace Sender

/-- Drops all requests and ends the sender. -/
def breakOff (s : Sender) : Sender :=
  { s with outgoing := s.outgoing.shut, phase := .ended }

/-- Begins a cycle if none is under way. -/
def begin (now : Nat) (s : Sender) : Sender :=
  match s.phase with
  | .resting =>
    match s.outgoing.cycleEnd? s.wait (1000000 * now) with
    | some _ => { s with phase := .gathering (now + s.wait.timer) }
    | none => s.breakOff
  | _ => s

/-- Sends the batch in hand and answers its callers, unless the call goes wrong. -/
def commit (clocks : Clocks) (now : Nat) (s : Sender) (feed : Feed) : Sender × Feed :=
  let s := { s with outgoing := s.outgoing.handOver, sentAt := s.sentAt ++ [now] }
  if s.mishap.crash then (s.breakOff, feed)
  else if s.mishap.stuck then ({ s with phase := .stuck }, feed)
  else
    let (responses, feed) := feed.send clocks s.ticketTtl (s.outgoing.batch.map (·.update))
    ({ s with
      outgoing := s.outgoing.settle (s.mishap.distort responses)
      phase := s.phase.behindCycle }, feed)

/-- Takes one request into the batch, and commits the batch if that fills it. -/
def takeRequest (clocks : Clocks) (now : Nat) (s : Sender) (feed : Feed) : Sender × Feed :=
  let s := s.begin now
  if s.phase.takesRequests then
    match s.outgoing.receive? with
    | some outgoing =>
      let s := { s with outgoing }
      if outgoing.isFull then s.commit clocks now feed else (s, feed)
    | none => (s, feed)
  else (s, feed)

def takeRequests (clocks : Clocks) (now : Nat) (s : Sender) (feed : Feed) : Sender × Feed :=
  s.outgoing.queue.foldl (fun (s, feed) _ ↦ s.takeRequest clocks now feed) (s, feed)

/-- Ends a cycle: the batch in hand is committed, unless it is empty. -/
def flush (clocks : Clocks) (now : Nat) (s : Sender) (feed : Feed) : Sender × Feed :=
  if s.phase.takesRequests ∧ s.outgoing.batch ≠ [] then s.commit clocks now feed
  else ({ s with phase := s.phase.behindCycle }, feed)

/-- Ends the cycle if its time is over, and begins the next one. -/
def turnCycle (clocks : Clocks) (now : Nat) (s : Sender) (feed : Feed) : Sender × Feed :=
  let s := s.begin now
  match s.phase with
  | .gathering cycleEnd =>
    if now < cycleEnd then (s, feed)
    else
      let (s, feed) := s.flush clocks now feed
      (s.begin now, feed)
  | _ => (s, feed)

/-- Lets the sender run and the callers that wait for room follow it, a number of times. -/
def passes (clocks : Clocks) (now : Nat) : Nat → Sender → Feed → Sender × Feed
  | 0, s, feed => (s, feed)
  | more + 1, s, feed =>
    let (s, feed) := s.takeRequests clocks now feed
    let (s, feed) := s.turnCycle clocks now feed
    passes clocks now more { s with outgoing := s.outgoing.letIn } feed

/-- What the sender does at a time: it takes all requests that have come, and ends the
cycle if its time is over.  Callers that wait for room come in only when it has emptied
the queue; each pass lets one or more of them in. -/
def run (clocks : Clocks) (now : Nat) (s : Sender) (feed : Feed) : Sender × Feed :=
  passes clocks now (s.outgoing.waiting.length + 1) s feed

/-- Commits all that has been admitted and ends the sender. -/
def close (clocks : Clocks) (now : Nat) (s : Sender) (feed : Feed) : Sender × Feed :=
  let (s, feed) := (s.begin now).flush clocks now feed
  let s := { s with phase := s.phase.close }
  let (s, feed) := s.takeRequests clocks now feed
  let (s, feed) := s.flush clocks now feed
  (s.breakOff, feed)

def nextDue? (s : Sender) : Option Nat :=
  match s.phase with
  | .gathering cycleEnd => some cycleEnd
  | _ => none

end Sender

end TicketPool

import TicketPool.Intake
import TicketPool.Node.Feed

/-!
# Pollers

A poller reads the feed again and again.  A poll ends when it has read something or its
wait is over; then all that it has read is handed into the channel, which may take as long
as the channel is full; and the next poll starts when that is done and the interval from
the start of this one is over.  A poller ends when the clock cannot show the end of the
interval, or when it has something to hand over and nobody takes from the channel any more.
Time is counted in milliseconds.
-/

namespace TicketPool

/-- What a poller does.  Each phase carries the time before which the next poll must not
start. -/
inductive PollPhase where
  | resting (next : Nat)
  | reading (next : Nat) (reader : Reader)
  | expecting (next due : Nat) (updates : List Update)
  | forwarding (next : Nat)
  | ended (next : Nat)

/-- A poller and what it hands its updates to. -/
structure Poller where
  /-- How long a poll waits, and the least time between two polls. -/
  wait : Span
  /-- How many entries one poll reads. -/
  count : Nat
  cursor : LogId
  phase : PollPhase
  intake : Intake
  /-- Whether the task that takes from the channel has ended. -/
  orphaned : Bool := false
  /-- When polls started. -/
  startedAt : List Nat := []

namespace Poller

/-- Starts a poll.  The read is given the interval as its wait, so its deadline is the time
before which the next poll must not start. -/
def start (now : Nat) (feed : Feed) (p : Poller) : Poller :=
  let next := now + p.wait.timer
  match p.wait.deadline? (1000000 * now) with
  | none => { p with phase := .ended next }
  | some _ =>
    let phase := match feed with
      | .log server =>
        match Reader.start server p.cursor p.count now p.wait with
        | some reader => .reading next reader
        | none => .ended next
      | .playlist polls =>
        match polls[p.startedAt.length]? with
        | some poll => .expecting next (now + poll.latency) poll.updates
        | none => .expecting next now []
    { p with phase, startedAt := p.startedAt ++ [now] }

/-- Takes over what a poll has read, if it is done. -/
def finish (now : Nat) (feed : Feed) (p : Poller) : Poller :=
  match p.phase, feed with
  | .reading next reader, .log server =>
    match (reader.wake server now).expire now with
    | .done _ result =>
      let (updates, cursor) := Replica.receive p.cursor result
      { p with cursor, phase := .forwarding next, intake := p.intake.deliver updates }
    | waiting => { p with phase := .reading next waiting }
  | .expecting next due updates, _ =>
    if due ≤ now then
      { p with phase := .forwarding next, intake := p.intake.deliver updates }
    else p
  | _, _ => p

/-- Hands over what has been read, and rests when all of it is in the channel. -/
def forward (p : Poller) : Poller :=
  match p.phase with
  | .forwarding next =>
    if p.orphaned ∧ p.intake.pending ≠ [] then { p with phase := .ended next }
    else
      let intake := p.intake.forward
      { p with
        intake, phase := if intake.pending = [] then .resting next else .forwarding next }
  | _ => p

/-- From now on nobody takes from the channel. -/
def orphan (p : Poller) : Poller :=
  { p with orphaned := true }

def resume (now : Nat) (feed : Feed) (p : Poller) : Poller :=
  (p.finish now feed).forward

/-- What the poller does at a time: it goes on with a poll, and starts one if it is due. -/
def run (now : Nat) (feed : Feed) (p : Poller) : Poller :=
  let p := p.resume now feed
  match p.phase with
  | .resting next => if now < next then p else (p.start now feed).resume now feed
  | _ => p

def nextDue? (p : Poller) : Option Nat :=
  match p.phase with
  | .resting next => some next
  | .reading _ (.waiting _ _ deadline _ _) => some deadline
  | .expecting _ due _ => some due
  | _ => none

end Poller

end TicketPool

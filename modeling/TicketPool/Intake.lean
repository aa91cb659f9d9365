import TicketPool.Store.Sweep

/-!
# The way in

Updates that a poll has read are handed one by one into a bounded channel and applied to
the store from its other end.  A drain applies what is in the channel until it is empty
or the hold timeout is over, but at least one update; an update whose payload cannot be
decoded is counted and passed over.  After each drain the store is swept.  A drain whose
deadline the clock cannot show breaks off before its first update.
-/

namespace TicketPool

/-- What has been read and applied so far.  The counts have no bound; words of 64 bits that
count the same agree with them up to 2 ^ 64 events. -/
structure IntakeTally where
  applied : Nat := 0
  failures : Nat := 0
  emptyPolls : Nat := 0
  holdTimeouts : Nat := 0
  sweeps : Nat := 0
  expired : Nat := 0
deriving DecidableEq, Repr, Inhabited

/-- The updates on their way and the store they go to. -/
structure Intake where
  capacity : Nat
  /-- Updates that have been read and do not fit the channel yet. -/
  pending : List Update := []
  channel : List Update := []
  store : Store := {}
  tally : IntakeTally := {}

/-- A call that drains: how long it may hold the task, and what the clock reads, in
nanoseconds, when the call starts and after so many updates. -/
structure DrainCall where
  hold : Span
  clock : Nat → Nat

/-- The readings after the updates. -/
def DrainCall.readings (call : DrainCall) (k : Nat) : Nat :=
  call.clock (k + 1)

/-- The deadline of a call, which is fixed before it takes anything, if the clock can show
it. -/
def DrainCall.deadline? (call : DrainCall) : Option Nat :=
  call.hold.deadline? (call.clock 0)

/-- How a drain ended: what it took, what it left, and whether the hold timeout cut it. -/
structure Drained where
  taken : List Update
  left : List Update
  cut : Bool
deriving DecidableEq, Repr

/-- Takes updates until none is left or the clock, read after each of them, has reached the
deadline.  `clock i` is the reading after `i` more updates. -/
def drainUntil (deadline : Nat) (clock : Nat → Nat) : List Update → Drained
  | [] => ⟨[], [], false⟩
  | u :: rest =>
    if deadline ≤ clock 0 ∧ rest ≠ [] then ⟨[u], rest, true⟩
    else
      let later := drainUntil deadline (fun i ↦ clock (i + 1)) rest
      ⟨u :: later.taken, later.left, later.cut⟩

namespace Intake

def deliver (i : Intake) (updates : List Update) : Intake :=
  if updates = [] then { i with tally := { i.tally with emptyPolls := i.tally.emptyPolls + 1 } }
  else { i with pending := i.pending ++ updates }

/-- Hands one update into the channel if there is room. -/
def push (i : Intake) : Intake :=
  match i.pending with
  | u :: rest =>
    if i.channel.length < i.capacity then
      { i with pending := rest, channel := i.channel ++ [u] }
    else i
  | [] => i

/-- Hands as many updates into the channel as it has room for. -/
def forward (i : Intake) : Intake :=
  i.pending.foldl (fun i _ ↦ i.push) i

def apply (codec : Codec) (i : Intake) (u : Update) : Intake :=
  match i.store.apply codec u with
  | .ok store =>
    { i with store, tally := { i.tally with applied := i.tally.applied + 1 } }
  | .error _ => { i with tally := { i.tally with failures := i.tally.failures + 1 } }

/-- Applies updates from the channel while the clock allows. -/
def drain (codec : Codec) (deadline : Nat) (clock : Nat → Nat) (i : Intake) : Intake :=
  let drained := drainUntil deadline clock i.channel
  let i := drained.taken.foldl (apply codec) { i with channel := drained.left }
  if drained.cut then
    { i with tally := { i.tally with holdTimeouts := i.tally.holdTimeouts + 1 } }
  else i

/-- What a call makes of an intake, unless it breaks off. -/
def drain? (codec : Codec) (call : DrainCall) (i : Intake) : Option Intake :=
  call.deadline?.map fun deadline ↦ i.drain codec deadline call.readings

def sweep (rule : SweepRule) (i : Intake) : Intake :=
  { i with
    store := i.store.sweep rule
    tally := { i.tally with
      sweeps := i.tally.sweeps + 1
      expired := i.tally.expired + (i.store.sweepReport rule).total } }

end Intake

end TicketPool

import TicketPool.Node.Poller
import TicketPool.Node.Sender

/-!
# Nodes

A node is one running cache: a sender that commits requests in cycles, a poller that reads
the feed, and an applier that drains the channel and sweeps the store once in an interval.
Time is counted in milliseconds.  Each of the three has a step that does what is due at a
given time, and `Node.nextDue?` tells when something will be due again.  Each of them ends on
its own when the clock cannot show a deadline that it needs.
-/

namespace TicketPool

/-- One running cache. -/
structure Node where
  settings : Settings
  codec : Codec
  joinedAt : Nat
  running : Bool := true
  sender : Sender
  poller : Poller
  /-- When the next round of the applier is due, unless it has ended. -/
  applyAt : Option Nat
  /-- The number of callers so far, and those whose replies are still to be fetched. -/
  callers : Nat := 0
  kept : List Nat := []

namespace Node

def start (settings : Settings) (codec : Codec) (wall : UInt64) (now : Nat) : Node where
  settings := settings
  codec := codec
  joinedAt := now
  sender := {
    wait := settings.outgoingWait
    ticketTtl := settings.ticketTtl
    outgoing :=
      { maxBatch := settings.maxBatch.toNat, capacity := settings.queueCapacity.toNat } }
  poller := {
    wait := settings.pollWait
    count := settings.maxUpdatesPerPoll.toNat
    cursor := Replica.initialCursor settings wall
    phase := .resting now
    intake := { capacity := max 1 settings.maxUpdatesPerPoll.toNat } }
  applyAt := some now

/-- The updates on their way to the store, and the store. -/
def intake (n : Node) : Intake :=
  n.poller.intake

def store (n : Node) : Store :=
  n.intake.store

def outgoing (n : Node) : Outgoing :=
  n.sender.outgoing

def batches (n : Node) : List Nat :=
  n.outgoing.sent.map (·.length)

/-- When batches were sent, from the time of joining. -/
def commitsAt (n : Node) : List Nat :=
  n.sender.sentAt.map (· - n.joinedAt)

/-- When polls started, from the time of joining. -/
def pollsAt (n : Node) : List Nat :=
  n.poller.startedAt.map (· - n.joinedAt)

def withOutgoing (n : Node) (outgoing : Outgoing) : Node :=
  { n with sender := { n.sender with outgoing } }

def send (clocks : Clocks) (now : Nat) (n : Node) (feed : Feed) : Node × Feed :=
  let (sender, feed) := n.sender.run clocks now feed
  ({ n with sender }, feed)

def poll (now : Nat) (feed : Feed) (n : Node) : Node :=
  { n with poller := n.poller.run now feed }

/-- How the store is swept while the wall clock reads `wall`. -/
def sweepRule (n : Node) (wall : UInt64) : SweepRule where
  now := .ofMillis wall
  ticketTtl := n.settings.ticketTtl
  assignmentTtl := n.settings.assignmentTtl

/-- How long it takes to apply an update, if decoding a payload takes `cost`. -/
def applyCost (cost : Nat) (u : Update) : Nat :=
  match u.command with
  | .createTicket | .assign => cost
  | .activate | .deactivate => 0

/-- The round of the applier that is due: it drains and sweeps.  Returns the time at which it
is done. -/
def applyRound (clocks : Clocks) (cost now : Nat) (n : Node) : Node × Nat :=
  let channel := n.intake.channel
  let spent count := ((channel.take count).map (applyCost cost)).foldl (· + ·) 0
  let call : DrainCall :=
    { hold := n.settings.holdTimeout, clock := fun count ↦ 1000000 * (now + spent count) }
  match n.intake.drain? n.codec call with
  | none => ({ n with poller := n.poller.orphan, applyAt := none }, now)
  | some drained =>
    let now := now + spent (channel.length - drained.channel.length)
    ({ n with
      poller := { n.poller with intake := drained.sweep (n.sweepRule clocks.wall) }
      applyAt := some (now + n.settings.applyInterval.pause now) }, now)

/-- Lets the applier do what is due, and returns the time at which it is done. -/
def applyIfDue (clocks : Clocks) (cost now : Nat) (n : Node) : Node × Nat :=
  match n.applyAt with
  | some due => if now < due then (n, now) else n.applyRound clocks cost now
  | none => (n, now)

def nextDue? (n : Node) : Option Nat :=
  ([n.applyAt, n.poller.nextDue?, n.sender.nextDue?].filterMap id).min?

/-- Commits all that has been admitted, and ends all tasks. -/
def close (clocks : Clocks) (now : Nat) (n : Node) (feed : Feed) : Node × Feed :=
  let (sender, feed) := n.sender.close clocks now feed
  ({ n with sender, running := false }, feed)

/-- Puts updates into the queue at once, as far as there is room.  Returns what became of
each, and the numbers of the callers that were admitted. -/
def tryEnqueue (n : Node) (updates : List Update) :
    List (Except PoolError Unit) × List Nat × Node :=
  updates.foldl (fun (outcomes, admitted, n) u ↦
    match n.outgoing.tryEnqueue ⟨n.callers, u⟩ with
    | .ok outgoing =>
      (outcomes ++ [.ok ()], admitted ++ [n.callers],
        { n.withOutgoing outgoing with callers := n.callers + 1 })
    | .error e => (outcomes ++ [.error e], admitted, n)) ([], [], n)

/-- Puts updates into the queue, their callers waiting for room if there is none.  Returns
the number of each caller, or why it was refused. -/
def enqueue (n : Node) (updates : List Update) : List (Except PoolError Nat) × Node :=
  updates.foldl (fun (callers, n) u ↦
    match n.outgoing.enqueue ⟨n.callers, u⟩ with
    | .ok outgoing =>
      (callers ++ [.ok n.callers], { n.withOutgoing outgoing with callers := n.callers + 1 })
    | .error e => (callers ++ [.error e], n)) ([], n)

/-- The replies of the kept callers: none for a caller that goes on waiting. -/
def keptReplies (n : Node) : List (Option Reply) :=
  n.kept.map n.outgoing.reply?

/-- Keeps on only those callers that have no reply. -/
def dropFetched (n : Node) : Node :=
  { n with kept := n.kept.filter fun caller ↦ (n.outgoing.reply? caller).isNone }

end Node

end TicketPool

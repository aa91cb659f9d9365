import TicketPool.Node
import TicketPool.Store.Digest

/-!
# Clusters

A cluster is a number of nodes that share a feed, with a time of their own that moves only
from one event to the next.  At each event all senders act first, then all appliers, then
all pollers, in the order of the nodes; an applier that takes time moves the time on.
-/

namespace TicketPool

/-- Nodes that share a feed. -/
structure Cluster where
  clocks : Clocks
  /-- How long it takes to decode a payload. -/
  decodeCost : Nat := 0
  now : Nat := 0
  feed : Feed
  nodes : List Node := []

/-- What a caller that waits for its response gets in the end. -/
inductive Outcome where
  | response (r : Response)
  | failed (e : PoolError)
  | noAnswer
deriving DecidableEq, Repr

namespace Cluster

def patience : Nat :=
  1000

def join (c : Cluster) (settings : Settings) : Cluster :=
  { c with nodes := c.nodes ++ [.start settings .json c.clocks.wall c.now] }

def modifyNode (c : Cluster) (i : Nat) (f : Node → Node) : Cluster :=
  { c with nodes := c.nodes.modify i f }

def sendAll (c : Cluster) : Cluster :=
  let (nodes, feed) := c.nodes.foldl (fun (nodes, feed) n ↦
    let (n, feed) := if n.running then n.send c.clocks c.now feed else (n, feed)
    (nodes ++ [n], feed)) ([], c.feed)
  { c with nodes, feed }

def applyAll (c : Cluster) : Cluster :=
  let (nodes, now) := c.nodes.foldl (fun (nodes, now) n ↦
    let (n, now) := if n.running then n.applyIfDue c.clocks c.decodeCost now else (n, now)
    (nodes ++ [n], now)) ([], c.now)
  { c with nodes, now }

def pollAll (c : Cluster) : Cluster :=
  { c with nodes := c.nodes.map fun n ↦ if n.running then n.poll c.now c.feed else n }

/-- All that happens at one time. -/
def round (c : Cluster) : Cluster :=
  c.sendAll.applyAll.pollAll

/-- The time of the next event, if there is one.  What has become due while time moved on
happens now. -/
def nextEvent? (c : Cluster) : Option Nat :=
  ((c.nodes.filter (·.running)).filterMap Node.nextDue?).min?.map (max c.now)

/-- Lets up to `ms` milliseconds pass, until `target` or until what is waited for has
happened.  Who waits for the target comes before the events of that time, so these are
still to come when it is reached.  Each round takes a millisecond or more, or leaves
nothing due before a later one. -/
def runUntil (finished : Cluster → Bool) (target : Nat) : (ms : Nat) → Cluster → Cluster
  | 0, c => c
  | ms + 1, c =>
    let c := c.round
    if finished c then c
    else
      match c.nextEvent?.filter (· < target) with
      | some due => runUntil finished target ms { c with now := due }
      | none => { c with now := max c.now target }

def advance (c : Cluster) (ms : Nat) : Cluster :=
  runUntil (fun _ ↦ false) (c.now + ms) ms c

def tryEnqueue (c : Cluster) (i : Nat) (updates : List Update) (abandon : Bool) :
    List (Except PoolError Unit) × Cluster :=
  match c.nodes[i]? with
  | none => ([], c)
  | some n =>
    let (outcomes, admitted, n) := n.tryEnqueue updates
    let n := if abandon then n else { n with kept := n.kept ++ admitted }
    (outcomes, c.modifyNode i fun _ ↦ n)

def outcome (n : Node) : Except PoolError Nat → Outcome
  | .error e => .failed e
  | .ok caller =>
    match n.outgoing.reply? caller with
    | some (.response r) => .response r
    | some .dropped => .failed .responseDropped
    | some .refused => .failed .queueClosed
    | none => .noAnswer

/-- Whether a node has replied to all of these callers. -/
def answered (i : Nat) (callers : List (Except PoolError Nat)) (c : Cluster) : Bool :=
  match c.nodes[i]? with
  | none => true
  | some n => callers.all fun caller ↦
      match caller with
      | .ok caller => (n.outgoing.reply? caller).isSome
      | .error _ => true

/-- Submits updates together and waits for all answers, as long as callers have patience. -/
def submit (c : Cluster) (i : Nat) (updates : List Update) : List Outcome × Cluster :=
  match c.nodes[i]? with
  | none => ([], c)
  | some n =>
    let (callers, n) := n.enqueue updates
    let c := c.modifyNode i fun _ ↦ n
    let c := if answered i callers c then c
      else runUntil (answered i callers) (c.now + patience) patience c
    let outcomes := match c.nodes[i]? with
      | some n => callers.map (outcome n)
      | none => []
    (outcomes, c.modifyNode i fun n ↦ n.withOutgoing n.outgoing.withdraw)

/-- The replies of a node's kept callers; those that have one are kept no longer. -/
def fetch (c : Cluster) (i : Nat) : List (Option Reply) × Cluster :=
  match c.nodes[i]? with
  | none => ([], c)
  | some n => (n.keptReplies, c.modifyNode i Node.dropFetched)

/-- Shuts a node down: what has been admitted is committed, then its tasks end. -/
def shutdown (c : Cluster) (i : Nat) : Cluster :=
  match c.nodes[i]? with
  | none => c
  | some n =>
    let (n, feed) := n.close c.clocks c.now c.feed
    { c.modifyNode i (fun _ ↦ n) with feed }

def append (c : Cluster) (batch : List Fields) : Except PoolError (List LogId) × Cluster :=
  let (result, feed) := c.feed.append c.clocks batch
  (result, { c with feed })

def sameDigest (c : Cluster) : Bool :=
  match (c.nodes.filter (·.running)).map fun n ↦ n.store.digest with
  | [] => true
  | first :: rest => rest.all (· = first)

end Cluster

end TicketPool

import TicketPool.Time.Span
import TicketPool.Update

/-!
# The outgoing queue

Requests of callers wait in a bounded queue.  They are taken one by one into a batch, and
a batch is committed as a whole: its updates are sent together, and each caller gets the
response at its position.  A batch that gets too few responses leaves its last callers
with an error.

Room for a whole batch is set aside before the first one, and the end of each cycle is
fixed when it begins.  If there is no such room, or the clock cannot show that end, the
sender breaks off, and with it go the requests that have been admitted.
-/

namespace TicketPool

/-- An update with the number of the caller that waits for its response. -/
structure Request where
  caller : Nat
  update : Update
deriving DecidableEq, Repr

/-- What a caller gets: a response, or none because its request was dropped after it had
been admitted or refused before. -/
inductive Reply where
  | response (r : Response)
  | dropped
  | refused
deriving DecidableEq, Repr

/-- What has been committed so far.  The counts have no bound; words of 64 bits that count
the same agree with them up to 2 ^ 64 events. -/
structure CommitTally where
  batches : Nat := 0
  committed : Nat := 0
  rejected : Nat := 0
deriving DecidableEq, Repr, Inhabited

/-- Counts a committed batch by the responses that its callers got. -/
def CommitTally.record (t : CommitTally) (answers : List (Nat × Response)) : CommitTally where
  batches := t.batches + 1
  committed := t.committed + (answers.filter (·.2.isOk)).length
  rejected := t.rejected + (answers.filter (!·.2.isOk)).length

/-- The response of each request of a batch: the one at its position, or an error if there
are too few. -/
def assignResponses (sent received : Nat) :
    List Request → List Response → List (Nat × Response)
  | [], _ => []
  | r :: rest, [] =>
    (r.caller, .failed r.update.key (.resultCountMismatch sent received)) ::
      assignResponses sent received rest []
  | r :: rest, response :: responses =>
    (r.caller, response) :: assignResponses sent received rest responses

/-- The responses of a batch, for what its updates were answered with. -/
def batchResponses (batch : List Request) (responses : List Response) :
    List (Nat × Response) :=
  assignResponses batch.length responses.length batch responses

/-- The queue, the batch in hand, and the callers that wait for room in the queue. -/
structure Outgoing where
  maxBatch : Nat
  capacity : Nat
  /-- The largest batch for which room can be set aside: a list takes up less than 2 ^ 63
  bytes, and a request 88 of them. -/
  room : Nat := (UInt64.size / 2 - 1) / 88
  queue : List Request := []
  /-- Callers whose requests do not fit the queue yet, in the order in which they came. -/
  waiting : List Request := []
  batch : List Request := []
  closed : Bool := false
  /-- The batches that have been sent, answered or not. -/
  sent : List (List Request) := []
  replies : List (Nat × Reply) := []
  tally : CommitTally := {}
deriving DecidableEq, Repr

namespace Outgoing

/-- Puts a request into the queue if there is room at once. -/
def tryEnqueue (q : Outgoing) (r : Request) : Except PoolError Outgoing :=
  if q.closed then .error .queueClosed
  else if q.queue.length < q.capacity ∧ q.waiting = [] then
    .ok { q with queue := q.queue ++ [r] }
  else .error .queueFull

/-- Puts a request into the queue, or lets its caller wait for room. -/
def enqueue (q : Outgoing) (r : Request) : Except PoolError Outgoing :=
  match q.tryEnqueue r with
  | .ok q => .ok q
  | .error .queueFull => .ok { q with waiting := q.waiting ++ [r] }
  | .error e => .error e

/-- Takes the first request of the queue into the batch. -/
def receive? (q : Outgoing) : Option Outgoing :=
  match q.queue with
  | [] => none
  | r :: rest => some { q with queue := rest, batch := q.batch ++ [r] }

/-- Lets callers that wait put their requests into the queue, as far as there is room. -/
def letIn (q : Outgoing) : Outgoing :=
  let room := q.capacity - q.queue.length
  { q with queue := q.queue ++ q.waiting.take room, waiting := q.waiting.drop room }

def isFull (q : Outgoing) : Bool :=
  q.maxBatch ≤ q.batch.length

/-- When a cycle of length `wait` ends that begins at `now`, in nanoseconds, if it can begin
at all. -/
def cycleEnd? (wait : Span) (now : Nat) (q : Outgoing) : Option Nat :=
  if q.maxBatch ≤ q.room then wait.deadline? now else none

/-- Sends the batch in hand.  It stays in hand until it is answered. -/
def handOver (q : Outgoing) : Outgoing :=
  { q with sent := q.sent ++ [q.batch] }

def settle (q : Outgoing) (responses : List Response) : Outgoing :=
  let answers := batchResponses q.batch responses
  { q with
    batch := []
    replies := q.replies ++ answers.map fun (caller, r) ↦ (caller, .response r)
    tally := q.tally.record answers }

/-- Lets go the callers that wait for room. -/
def withdraw (q : Outgoing) : Outgoing :=
  { q with waiting := [] }

/-- Closes the queue, which drops all requests: those in the queue and the batch had been
admitted, those that wait for room had not. -/
def shut (q : Outgoing) : Outgoing :=
  { q with
    queue := []
    waiting := []
    batch := []
    closed := true
    replies := q.replies ++ (q.batch ++ q.queue).map (fun r ↦ (r.caller, .dropped)) ++
      q.waiting.map fun r ↦ (r.caller, .refused) }

/-- What a caller got, if it got anything. -/
def reply? (q : Outgoing) (caller : Nat) : Option Reply :=
  q.replies.lookup caller

end Outgoing

end TicketPool

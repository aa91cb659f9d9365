import TicketPool.Replica

/-!
# Feeds

What nodes send to and read from: a log that they share, or a list of polls whose outcome
is known beforehand.
-/

namespace TicketPool

/-- What time it is outside: what the wall clock reads, and the clock that ids come from. -/
structure Clocks where
  wall : UInt64
  ids : UInt64
deriving DecidableEq, Repr

/-- A poll whose outcome is known beforehand: how long it takes and what it reads. -/
structure Poll where
  latency : Nat
  updates : List Update
deriving DecidableEq, Repr

/-- Where nodes send to and read from.  Each node goes through the polls of a playlist on
its own, and a playlist answers every update with its own key. -/
inductive Feed where
  | log (server : LogServer)
  | playlist (polls : List Poll)

namespace Feed

def send (clocks : Clocks) (ticketTtl : Span) (updates : List Update) :
    Feed → List Response × Feed
  | log server =>
    let (responses, server) :=
      Replica.send (LogServer.backend fun _ ↦ clocks.ids) ticketTtl clocks.wall updates server
    (responses, log server)
  | playlist polls => (updates.map fun u ↦ .ok u.key, playlist polls)

def append (clocks : Clocks) (batch : List Fields) :
    Feed → Except PoolError (List LogId) × Feed
  | log server =>
    let (result, server) := server.append (fun _ ↦ clocks.ids) batch
    (result, log server)
  | playlist polls => (.ok [], playlist polls)

end Feed

end TicketPool

import TicketPool.Log

/-!
# Reaching the log

A server holds the log and answers the caches that share it.  A live server can be out of
reach, and then every call fails.  A scripted server fails the calls it is told to fail,
and may return too few or too many ids.

A read that finds nothing waits.  On a live server it looks again whenever entries have
been added; on a scripted one its answer is settled from the start.
-/

namespace TicketPool

/-- The faults of a scripted server: calls that fail, each with its reason, and how many
ids too many an append returns, or too few if negative. -/
structure Faults where
  append : Option String := none
  read : Option String := none
  trim : Option String := none
  surplus : Int := 0
deriving DecidableEq, Repr, Inhabited

/-- How a server answers. -/
inductive ServerMode where
  | live (available : Bool)
  | scripted (faults : Faults)
deriving DecidableEq, Repr

/-- The log with those who can be waiting for it. -/
structure LogServer where
  log : Log := {}
  mode : ServerMode
  /-- How many times readers have been woken by an append. -/
  wakes : Nat := 0
  /-- The number of entries of each append so far, failed ones included. -/
  appends : List Nat := []
deriving DecidableEq, Repr

/-- What a look at the log gives: an answer at once, or the answer to give at the end of
the wait if nothing comes. -/
inductive Look where
  | answer (result : Except PoolError (List Entry))
  | wait (result : Except PoolError (List Entry))

namespace LogServer

/-- The error of a live server out of reach. -/
def offline : PoolError :=
  .logUnavailable "memory stream offline"

/-- The ids that a scripted append returns: the last ones are missing, or others follow. -/
def misreport (surplus : Int) (ids : List LogId) : List LogId :=
  ids.take (ids.length - (-surplus).toNat) ++
    (List.range surplus.toNat).map fun i ↦ ⟨1, UInt64.ofNat i⟩

/-- Entries with the readings of the clock at their times. -/
def stamped (readings : Nat → UInt64) (batch : List Fields) : List (UInt64 × Fields) :=
  batch.mapIdx fun i fields ↦ (readings i, fields)

/-- Adds entries, all or none. -/
def append (server : LogServer) (readings : Nat → UInt64) (batch : List Fields) :
    Except PoolError (List LogId) × LogServer :=
  let server := { server with appends := server.appends ++ [batch.length] }
  let (ids, log) := server.log.append (stamped readings batch)
  match server.mode with
  | .live true => (.ok ids, { server with log, wakes := server.wakes + 1 })
  | .live false => (.error offline, server)
  | .scripted faults =>
    match faults.append with
    | some reason => (.error (.logUnavailable reason), server)
    | none => (.ok (misreport faults.surplus ids), { server with log })

/-- Drops the entries before an id.  Returns how many there were. -/
def trim (server : LogServer) (least : LogId) : Except PoolError Nat × LogServer :=
  let trimmed := { server with log := server.log.trim least }
  let removed := server.log.entries.size - trimmed.log.entries.size
  match server.mode with
  | .live true => (.ok removed, trimmed)
  | .live false => (.error offline, server)
  | .scripted faults =>
    match faults.trim with
    | some reason => (.error (.logUnavailable reason), server)
    | none => (.ok removed, trimmed)

def look (server : LogServer) (cursor : LogId) (count : Nat) : Look :=
  let found := server.log.after cursor count
  let looked := if found = [] then .wait (.ok []) else .answer (.ok found)
  match server.mode with
  | .live true => looked
  | .live false => .answer (.error offline)
  | .scripted faults =>
    match faults.read with
    | some reason => .wait (.error (.logUnavailable reason))
    | none => looked

def setAvailable (server : LogServer) (available : Bool) : LogServer :=
  match server.mode with
  | .live _ => { server with mode := .live available }
  | .scripted _ => server

def setFaults (server : LogServer) (faults : Faults) : LogServer :=
  match server.mode with
  | .live _ => server
  | .scripted _ => { server with mode := .scripted faults }

end LogServer

end TicketPool

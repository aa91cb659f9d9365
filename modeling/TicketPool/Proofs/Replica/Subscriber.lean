import TicketPool.Proofs.Log.Chronicle

/-!
# Subscribers

A subscriber is the reading side of a replica.  It makes one call for updates after the
other; a call may have to wait, and then others act on the log before it comes back.  The
subscriber remembers every call that has come back, with what the log kept at that time.
-/

namespace TicketPool

structure Call where
  /-- The cursor before the call and behind it. -/
  origin : LogId
  target : LogId
  /-- What the log kept when the call came back. -/
  kept : List Entry
  /-- What the call read, and the updates it returned. -/
  result : Except PoolError (List Entry)
  returned : List Update

/-- The reading side of a replica, with the reader of a call that waits. -/
structure Subscriber where
  count : Nat
  /-- How long a call waits, in milliseconds.  The clock can show the ends of its waits; a
  subscriber for which it cannot makes no call. -/
  block : Nat
  cursor : LogId
  reader : Option Reader := none
  calls : List Call := []

namespace Subscriber

def received (s : Subscriber) : List Update :=
  s.calls.flatMap Call.returned

/-- Whether the log still kept an entry when a call moved the cursor past it. -/
def Caught (s : Subscriber) (e : Entry) : Prop :=
  ∃ call ∈ s.calls, call.origin < e.id ∧ e.id ≤ call.target ∧ e ∈ call.kept

instance (s : Subscriber) : DecidablePred s.Caught :=
  fun _ ↦ inferInstanceAs (Decidable (∃ _ ∈ _, _))

def conclude (server : LogServer) (s : Subscriber) (result : Except PoolError (List Entry)) :
    Subscriber :=
  let (returned, target) := Replica.receive s.cursor result
  { s with
    cursor := target
    reader := none
    calls := s.calls ++
      [{ origin := s.cursor, target, kept := server.log.entries.toList, result, returned }] }

/-- Ends a call if its reader is done, and lets it wait otherwise. -/
def settle (server : LogServer) (s : Subscriber) : Reader → Subscriber
  | .done _ result => s.conclude server result
  | waiting => { s with reader := some waiting }

/-- Lets the subscriber run: it starts a call, or goes on with the one that waits. -/
def turn (server : LogServer) (now : Nat) (s : Subscriber) : Subscriber :=
  match s.reader with
  | none => s.settle server (.first server s.cursor s.count now s.block)
  | some reader => s.settle server ((reader.wake server now).expire now)

/-- A call that waits on a live server has found nothing so far. -/
def Patient (s : Subscriber) (reader : Reader) : Prop :=
  ∃ deadline seen, reader = .waiting s.cursor s.count deadline (.ok []) seen

/-- What a reader of the subscriber comes to: it waits, or its call ends with a failure,
with nothing, or with what a look finds. -/
inductive Settles (server : LogServer) (s : Subscriber) : Reader → Prop where
  | waits (reader : Reader) (h : s.Patient reader) : Settles server s reader
  | fails (time : Nat) (e : PoolError) : Settles server s (.done time (.error e))
  | expires (time : Nat) : Settles server s (.done time (.ok []))
  | finds (time : Nat) : Settles server s (.done time (.ok (server.log.after s.cursor s.count)))

variable {server : LogServer} {s : Subscriber} {available : Bool}

theorem settles_first (hlive : server.mode = .live available) (now : Nat) :
    s.Settles server (.first server s.cursor s.count now s.block) := by
  simp only [Reader.first, LogServer.look, hlive]
  cases available with
  | true =>
    by_cases hnone : server.log.after s.cursor s.count = []
    · simp only [if_pos hnone]
      exact .waits _ ⟨_, _, rfl⟩
    · simp only [if_neg hnone]
      exact .finds now
  | false => exact .fails now _

theorem settles_resume {reader : Reader} (hlive : server.mode = .live available)
    (hreader : s.Patient reader) (now : Nat) :
    s.Settles server ((reader.wake server now).expire now) := by
  obtain ⟨deadline, seen, rfl⟩ := hreader
  have hexpire : ∀ seen, s.Settles server
      ((Reader.waiting s.cursor s.count deadline (.ok []) seen).expire now) := by
    intro seen
    simp only [Reader.expire]
    split_ifs
    · exact .expires deadline
    · exact .waits _ ⟨_, _, rfl⟩
  by_cases hnews : seen < server.wakes
  · simp only [Reader.wake, if_pos hnews, LogServer.look, hlive]
    cases available with
    | true =>
      by_cases hnone : server.log.after s.cursor s.count = []
      · simp only [if_pos hnone]
        exact hexpire server.wakes
      · simp only [if_neg hnone]
        exact .finds now
    | false => exact .fails now _
  · simp only [Reader.wake, if_neg hnews]
    exact hexpire seen

theorem turn_eq_settle (hlive : server.mode = .live available)
    (hreader : ∀ reader, s.reader = some reader → s.Patient reader) (now : Nat) :
    ∃ reader, s.Settles server reader ∧ s.turn server now = s.settle server reader := by
  unfold turn
  cases hwaiting : s.reader with
  | none => exact ⟨_, settles_first hlive now, rfl⟩
  | some reader => exact ⟨_, settles_resume hlive (hreader reader hwaiting) now, rfl⟩

end Subscriber

end TicketPool

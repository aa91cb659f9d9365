import TicketPool.Log.Server
import TicketPool.Time.Span

/-!
# Readers that wait

A reader asks for entries behind a cursor and waits for the first one until a deadline
that is fixed before it looks for the first time; a reader whose deadline the clock cannot
show breaks off and never looks.  On a live server it looks at the start and then each time
it runs after an append, so an append that was trimmed away again before that does not
end the wait.  Time is counted in milliseconds.
-/

namespace TicketPool

/-- A reader in its wait, or with its answer and the time it came. -/
inductive Reader where
  /-- The deadline, the answer if nothing comes, and the wakes that the reader has seen. -/
  | waiting (cursor : LogId) (count : Nat) (deadline : Nat)
      (result : Except PoolError (List Entry)) (seen : Nat)
  | done (time : Nat) (result : Except PoolError (List Entry))

namespace Reader

/-- A reader that looks for the first time. -/
def first (server : LogServer) (cursor : LogId) (count now block : Nat) : Reader :=
  match server.look cursor count with
  | .answer result => done now result
  | .wait result => waiting cursor count (now + block) result server.wakes

/-- Starts a read that may wait for a span.  A read that breaks off gives nothing, not even
entries that are there. -/
def start (server : LogServer) (cursor : LogId) (count now : Nat) (block : Span) :
    Option Reader :=
  match block.deadline? (1000000 * now) with
  | some _ => some (first server cursor count now block.ticks)
  | none => none

/-- Lets a reader run: it looks again if entries have been added since it last looked. -/
def wake (server : LogServer) (now : Nat) : Reader → Reader
  | waiting cursor count deadline result seen =>
    if seen < server.wakes then
      match server.look cursor count with
      | .answer result => done now result
      | .wait result => waiting cursor count deadline result server.wakes
    else waiting cursor count deadline result seen
  | done time result => done time result

/-- Ends the wait of a reader whose deadline lies before `now`, or at `now`. -/
def expire (now : Nat) : Reader → Reader
  | waiting cursor count deadline result seen =>
    if deadline ≤ now then done deadline result
    else waiting cursor count deadline result seen
  | done time result => done time result

/-- The answer of a reader, at its deadline if it has none before. -/
def finish : Reader → Nat × Except PoolError (List Entry)
  | waiting _ _ deadline result _ => (deadline, result)
  | done time result => (time, result)

/-- Lets other tasks act while a reader waits.  Before the time of an action the reader
runs, and its wait may end; an action of no delay comes before the reader runs.  The
actions share a state that holds the server.  Returns what they gave, their state, and the
reader's answer. -/
def follow {σ α : Type} (server : σ → LogServer) (state : σ) (now : Nat) (reader : Reader) :
    List (Nat × (σ → α × σ)) → List α × σ × Nat × Except PoolError (List Entry)
  | [] => ([], state, ((reader.wake (server state) now).expire now).finish)
  | (delay, action) :: rest =>
    let reader := if delay = 0 then reader
      else ((reader.wake (server state) now).expire now).expire (now + delay - 1)
    let (outcome, state) := action state
    let (outcomes, final) := follow server state (now + delay) reader rest
    (outcome :: outcomes, final)

end Reader

end TicketPool

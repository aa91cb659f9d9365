import TicketPool.Proofs.Replica.Delivery

/-!
# Polling to the end

While nothing else happens, each poll goes on where the last one has stopped.  So a number of polls
reads what a single larger one would, and enough of them read all that the log keeps behind the
cursor.
-/

namespace TicketPool

/-- The entries that a log keeps behind a cursor. -/
def Log.pending (log : Log) (cursor : LogId) : List Entry :=
  log.entries.toList.filter fun e ↦ decide (cursor < e.id)

namespace Replica

/-- A number of polls one after the other: all updates, and the cursor behind them. -/
def polls (settings : Settings) (server : LogServer) (cursor : LogId) : Nat → List Update × LogId
  | 0 => ([], cursor)
  | n + 1 =>
    let (before, reached) := polls settings server cursor n
    let (updates, next, _) := poll settings server reached
    (before ++ updates, next)

variable {settings : Settings} {server : LogServer}

/-- A poll that finds nothing ends with nothing when its wait is over. -/
theorem poll_of_available (settings : Settings) (hlive : server.mode = .live true)
    (cursor : LogId) :
    let found := server.log.after cursor settings.maxUpdatesPerPoll.toNat
    (poll settings server cursor).1 = updates found ∧
      (poll settings server cursor).2.1 = cursorAfter cursor found := by
  simp only [poll, Reader.first, LogServer.look, hlive]
  by_cases hnone : server.log.after cursor settings.maxUpdatesPerPoll.toNat = []
  · simp [hnone, Reader.finish, receive, updates, cursorAfter]
  · simp [hnone, Reader.finish, receive]

theorem pending_of_le {log : Log} {cursor reached : LogId} (hle : cursor ≤ reached) :
    log.pending reached = (log.pending cursor).filter fun e ↦ decide (reached < e.id) := by
  rw [Log.pending, Log.pending, List.filter_filter]
  apply List.filter_congr
  intro e _
  by_cases hlt : reached < e.id
  · simp [hlt, lt_of_le_of_lt hle hlt]
  · simp [hlt]

/-- What lies behind the cursor after some of the pending entries have been read. -/
theorem pending_cursorAfter {log : Log} (hsorted : log.entries.toList.Pairwise Entry.Before)
    (cursor : LogId) (n : Nat) :
    log.pending (cursorAfter cursor ((log.pending cursor).take n)) =
      (log.pending cursor).drop n := by
  obtain ⟨hle, -, hmem⟩ := cursorAfter_take hsorted cursor n rfl
  have hparts : ((log.pending cursor).take n ++ (log.pending cursor).drop n).Pairwise
      Entry.Before := by
    rw [List.take_append_drop]
    exact hsorted.filter _
  obtain ⟨-, -, hcross⟩ := List.pairwise_append.mp hparts
  set reached := cursorAfter cursor ((log.pending cursor).take n)
  have hfront : ((log.pending cursor).take n).filter (fun e ↦ decide (reached < e.id)) = [] := by
    rw [List.filter_eq_nil_iff]
    intro e he hlt
    exact absurd ((hmem e).mp he).2.2 (not_le.mpr (of_decide_eq_true hlt))
  have hback : ((log.pending cursor).drop n).filter (fun e ↦ decide (reached < e.id)) =
      (log.pending cursor).drop n := by
    rw [List.filter_eq_self]
    intro e he
    rw [decide_eq_true_eq]
    by_contra hread
    obtain ⟨hkept, hlt⟩ := List.mem_filter.mp (List.mem_of_mem_drop he)
    have hfound := (hmem e).mpr ⟨hkept, of_decide_eq_true hlt, not_lt.mp hread⟩
    exact lt_irrefl e.id (hcross e hfound e he)
  calc
    log.pending reached = (log.pending cursor).filter (fun e ↦ decide (reached < e.id)) :=
      pending_of_le hle
    _ = ((log.pending cursor).take n ++ (log.pending cursor).drop n).filter
        (fun e ↦ decide (reached < e.id)) := by rw [List.take_append_drop]
    _ = (log.pending cursor).drop n := by rw [List.filter_append, hfront, hback, List.nil_append]

/-- Polls read the oldest pending entries, as many as they may read together. -/
theorem polls_eq (hlive : server.mode = .live true)
    (hsorted : server.log.entries.toList.Pairwise Entry.Before) (cursor : LogId) (n : Nat) :
    polls settings server cursor n = receive cursor
      (.ok ((server.log.pending cursor).take (n * settings.maxUpdatesPerPoll.toNat))) := by
  induction n with
  | zero => simp [polls, receive, updates, cursorAfter]
  | succ n ih =>
    set count := settings.maxUpdatesPerPoll.toNat with hcount
    set before := (server.log.pending cursor).take (n * count) with hbefore
    set next := ((server.log.pending cursor).drop (n * count)).take count with hnext
    have hfound : (server.log.pending cursor).take ((n + 1) * count) = before ++ next := by
      rw [Nat.add_one_mul, List.take_add]
    have hafter : server.log.after (cursorAfter cursor before) count = next := by
      rw [Log.after_eq_take_filter hsorted]
      exact congrArg (List.take _) (pending_cursorAfter hsorted cursor _)
    obtain ⟨hupdates, hcursor⟩ :=
      poll_of_available settings hlive (cursorAfter cursor before)
    rw [← hcount, hafter] at hupdates hcursor
    rw [polls, ih, hfound]
    simp only [receive, Prod.mk.injEq]
    constructor
    · rw [hupdates, updates_append]
    · rw [hcursor]
      simp only [cursorAfter, List.foldl_append]

/-- Polls that leave nothing behind their cursor have read all pending entries. -/
theorem polls_of_exhausted (hlive : server.mode = .live true)
    (hsorted : server.log.entries.toList.Pairwise Entry.Before) {cursor : LogId} {n : Nat}
    (hexhausted : server.log.pending (polls settings server cursor n).2 = []) :
    (polls settings server cursor n).1 = updates (server.log.pending cursor) := by
  rw [polls_eq hlive hsorted, receive] at hexhausted ⊢
  rw [pending_cursorAfter hsorted, List.drop_eq_nil_iff] at hexhausted
  rw [List.take_of_length_le hexhausted]

/-- As many polls as there are entries are enough. -/
theorem pending_polls_eq_nil (hlive : server.mode = .live true)
    (hsorted : server.log.entries.toList.Pairwise Entry.Before)
    (hcount : 0 < settings.maxUpdatesPerPoll.toNat) (cursor : LogId) {n : Nat}
    (hn : server.log.entries.size ≤ n) :
    server.log.pending (polls settings server cursor n).2 = [] := by
  rw [polls_eq hlive hsorted, receive, pending_cursorAfter hsorted, List.drop_eq_nil_iff]
  calc
    (server.log.pending cursor).length ≤ server.log.entries.size := by
      rw [← Array.length_toList]
      exact List.length_filter_le _ _
    _ ≤ n := hn
    _ ≤ n * settings.maxUpdatesPerPoll.toNat := Nat.le_mul_of_pos_right n hcount

end Replica

end TicketPool

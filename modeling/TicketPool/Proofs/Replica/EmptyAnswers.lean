import TicketPool.Proofs.Replica.Polling

/-!
# Reading until a poll comes back empty

A poll comes back empty if it finds nothing, but also if none of the entries it has read records an
update.  So whoever polls until nothing comes has read all that was pending only if each window of
entries that one poll reads has an update in it, as long as more entries follow.
-/

namespace TicketPool.Replica

/-- Polls one after the other until one comes back empty: the updates of all, and the cursor behind
the last. -/
inductive ReadsUntilEmpty (settings : Settings) (server : LogServer) :
    LogId → List Update → LogId → Prop where
  | stop {cursor reached : LogId} {waited : Nat}
      (hpoll : poll settings server cursor = ([], reached, waited)) :
      ReadsUntilEmpty settings server cursor [] reached
  | next {cursor reached last : LogId} {waited : Nat} {first later : List Update}
      (hpoll : poll settings server cursor = (first, reached, waited)) (hsome : first ≠ [])
      (hlater : ReadsUntilEmpty settings server reached later last) :
      ReadsUntilEmpty settings server cursor (first ++ later) last

/-- The entries that a poll reads if `k` polls have gone before. -/
def window (count : Nat) (pending : List Entry) (k : Nat) : List Entry :=
  (pending.drop (k * count)).take count

/-- All polls before the one after `k` others give something, and that one gives nothing. -/
def FirstBarren (count : Nat) (pending : List Entry) (k : Nat) : Prop :=
  (∀ j < k, updates (window count pending j) ≠ []) ∧ updates (window count pending k) = []

section Windows

variable {count k : Nat} {pending : List Entry}

theorem window_zero : window count pending 0 = pending.take count := by
  simp [window]

theorem window_succ : window count pending (k + 1) = window count (pending.drop count) k := by
  rw [window, window, List.drop_drop, Nat.add_one_mul, Nat.add_comm]

theorem firstBarren_zero_iff :
    FirstBarren count pending 0 ↔ updates (pending.take count) = [] := by
  simp [FirstBarren, window_zero]

theorem firstBarren_succ_iff : FirstBarren count pending (k + 1) ↔
    updates (pending.take count) ≠ [] ∧ FirstBarren count (pending.drop count) k := by
  simp only [FirstBarren, window_succ, Nat.forall_lt_succ_left, window_zero, and_assoc]

theorem exists_firstBarren (hcount : 0 < count) (pending : List Entry) :
    ∃ k, FirstBarren count pending k := by
  have hend : ∃ k, updates (window count pending k) = [] := by
    refine ⟨pending.length, ?_⟩
    rw [window, List.drop_of_length_le (Nat.le_mul_of_pos_right _ hcount)]
    simp [updates]
  classical
  exact ⟨Nat.find hend, fun j hj ↦ Nat.find_min hend hj, Nat.find_spec hend⟩

theorem updates_drop_of_le {m n : Nat} (hle : m ≤ n) (hnone : updates (pending.drop m) = []) :
    updates (pending.drop n) = [] := by
  have hsub : (pending.drop n).Sublist (pending.drop m) := List.drop_sublist_drop_left _ hle
  exact List.sublist_nil.mp (hnone ▸ hsub.filterMap _)

theorem FirstBarren.unique {m : Nat} (hk : FirstBarren count pending k)
    (hm : FirstBarren count pending m) : k = m := by
  obtain hlt | heq | hgt := Nat.lt_trichotomy k m
  · exact absurd hk.2 (hm.1 k hlt)
  · exact heq
  · exact absurd hm.2 (hk.1 m hgt)

theorem updates_eq_take_append (pending : List Entry) (n : Nat) :
    updates pending = updates (pending.take n) ++ updates (pending.drop n) := by
  rw [← updates_append, List.take_append_drop]

theorem FirstBarren.updates_drop (h : FirstBarren count pending k) :
    updates (pending.drop (k * count)) = updates (pending.drop ((k + 1) * count)) := by
  rw [updates_eq_take_append _ count, List.drop_drop, ← Nat.add_one_mul]
  exact (congrArg (· ++ _) h.2).trans (List.nil_append _)

/-- What stays true once it is true holds from all barren windows on if it does from the first. -/
theorem FirstBarren.forall_iff (h : FirstBarren count pending k) {p : Nat → Prop}
    (hstays : ∀ m n, m ≤ n → p m → p n) :
    (∀ m, updates (window count pending m) = [] → p m) ↔ p k := by
  constructor
  · intro hall
    exact hall k h.2
  · intro hk m hm
    obtain hlt | hle := Nat.lt_or_ge m k
    · exact absurd hm (h.1 m hlt)
    · exact hstays k m hle hk

theorem drop_eq_nil_of_window (hcount : 0 < count) (hall : ∀ e ∈ pending, ∃ u, e.toUpdate = .ok u)
    (hnone : updates (window count pending k) = []) : pending.drop (k * count) = [] := by
  have hwindow : window count pending k = [] := by
    rw [List.eq_nil_iff_forall_not_mem]
    intro e he
    obtain ⟨u, hu⟩ := hall e (List.mem_of_mem_drop (List.mem_of_mem_take he))
    have hrecorded := List.filterMap_eq_nil_iff.mp hnone e he
    rw [hu] at hrecorded
    cases hrecorded
  exact (List.take_eq_nil_iff.mp hwindow).resolve_left (Nat.pos_iff_ne_zero.mp hcount)

end Windows

variable {settings : Settings} {server : LogServer} {cursor reached : LogId} {found : List Update}

theorem poll_eq (settings : Settings) (hlive : server.mode = .live true)
    (hsorted : server.log.entries.toList.Pairwise Entry.Before) (cursor : LogId) :
    let read := (server.log.pending cursor).take settings.maxUpdatesPerPoll.toNat
    ∃ waited, poll settings server cursor = (updates read, cursorAfter cursor read, waited) := by
  intro read
  have hread : server.log.after cursor settings.maxUpdatesPerPoll.toNat = read :=
    Log.after_eq_take_filter hsorted _ _
  obtain ⟨hupdates, hcursor⟩ := poll_of_available settings hlive cursor
  rw [hread] at hupdates hcursor
  exact ⟨_, Prod.ext hupdates (Prod.ext hcursor rfl)⟩

/-- The first of several polls, and the others from the cursor that it has reached. -/
theorem polls_succ_eq (hlive : server.mode = .live true)
    (hsorted : server.log.entries.toList.Pairwise Entry.Before) (cursor : LogId) (n : Nat) :
    let read := (server.log.pending cursor).take settings.maxUpdatesPerPoll.toNat
    let later := polls settings server (cursorAfter cursor read) n
    polls settings server cursor (n + 1) = (updates read ++ later.1, later.2) := by
  intro read later
  simp only [later, read, polls_eq hlive hsorted, receive, pending_cursorAfter hsorted]
  rw [Nat.add_one_mul, Nat.add_comm, List.take_add, updates_append]
  simp only [cursorAfter, List.foldl_append]

theorem readsUntilEmpty_iff (hlive : server.mode = .live true)
    (hsorted : server.log.entries.toList.Pairwise Entry.Before) :
    ReadsUntilEmpty settings server cursor found reached ↔
      ∃ k, FirstBarren settings.maxUpdatesPerPoll.toNat (server.log.pending cursor) k ∧
        (found, reached) = polls settings server cursor (k + 1) := by
  constructor
  · -- on the polls: those that follow start from what the first has left pending
    intro h
    induction h with
    | @stop cursor reached _ hpoll =>
      obtain ⟨_, hread⟩ := poll_eq settings hlive hsorted cursor
      simp only [hpoll, Prod.mk.injEq] at hread
      obtain ⟨hnone, rfl, -⟩ := hread
      refine ⟨0, firstBarren_zero_iff.mpr hnone.symm, ?_⟩
      rw [polls_succ_eq hlive hsorted, ← hnone]
      rfl
    | @next cursor reached last _ first later hpoll hsome _ ih =>
      obtain ⟨_, hread⟩ := poll_eq settings hlive hsorted cursor
      simp only [hpoll, Prod.mk.injEq] at hread
      obtain ⟨rfl, rfl, -⟩ := hread
      obtain ⟨k, hbarren, hpolls⟩ := ih
      rw [pending_cursorAfter hsorted] at hbarren
      refine ⟨k + 1, firstBarren_succ_iff.mpr ⟨hsome, hbarren⟩, ?_⟩
      rw [polls_succ_eq hlive hsorted, ← hpolls]
  · rintro ⟨k, hbarren, hpolls⟩
    induction k generalizing cursor found with
    | zero =>
      obtain ⟨_, hread⟩ := poll_eq settings hlive hsorted cursor
      rw [firstBarren_zero_iff] at hbarren
      rw [polls_succ_eq hlive hsorted, hbarren, polls, List.nil_append, Prod.mk.injEq] at hpolls
      obtain ⟨rfl, rfl⟩ := hpolls
      rw [hbarren] at hread
      exact .stop hread
    | succ k ih =>
      obtain ⟨_, hread⟩ := poll_eq settings hlive hsorted cursor
      obtain ⟨hsome, hbarren⟩ := firstBarren_succ_iff.mp hbarren
      rw [polls_succ_eq hlive hsorted, Prod.mk.injEq] at hpolls
      obtain ⟨rfl, rfl⟩ := hpolls
      apply ReadsUntilEmpty.next hread hsome
      apply ih
      · rwa [pending_cursorAfter hsorted]
      · rfl

theorem pending_cursorAfter_self {log : Log} (hsorted : log.entries.toList.Pairwise Entry.Before)
    (cursor : LogId) : log.pending (cursorAfter cursor (log.pending cursor)) = [] := by
  have hpending := pending_cursorAfter hsorted cursor (log.pending cursor).length
  rwa [List.take_length, List.drop_length] at hpending

theorem cursorAfter_pending {log : Log} (hsorted : log.entries.toList.Pairwise Entry.Before)
    (hsome : log.pending cursor ≠ []) : ∃ x, log.entries.toList.getLast? = some x ∧
      cursorAfter cursor (log.pending cursor) = x.id := by
  obtain ⟨e, he⟩ := List.exists_mem_of_ne_nil _ hsome
  obtain ⟨he, hbehind⟩ := List.mem_filter.mp he
  obtain ⟨front, x, hparts⟩ := (List.eq_nil_or_concat' _).resolve_left (List.ne_nil_of_mem he)
  have hlt : cursor < x.id := by
    rw [hparts] at he hsorted
    obtain hfront | rfl := List.mem_append.mp he |>.imp_right List.mem_singleton.mp
    · have hless := (List.pairwise_append.mp hsorted).2.2 e hfront x (List.mem_singleton_self x)
      exact lt_trans (of_decide_eq_true hbehind) hless
    · exact of_decide_eq_true hbehind
  refine ⟨x, by rw [hparts, List.getLast?_concat], cursorAfter_of_getLast? ?_ cursor⟩
  rw [Log.pending, hparts, List.filter_append, List.filter_singleton]
  simp [hlt]

theorem updates_polls_eq_iff (hlive : server.mode = .live true)
    (hsorted : server.log.entries.toList.Pairwise Entry.Before) {k : Nat}
    (hbarren : FirstBarren settings.maxUpdatesPerPoll.toNat (server.log.pending cursor) k) :
    (polls settings server cursor (k + 1)).1 = updates (server.log.pending cursor) ↔
      updates ((server.log.pending cursor).drop (k * settings.maxUpdatesPerPoll.toNat)) = [] := by
  set count := settings.maxUpdatesPerPoll.toNat
  rw [polls_eq hlive hsorted, receive, hbarren.updates_drop,
    updates_eq_take_append (server.log.pending cursor) ((k + 1) * count)]
  exact List.self_eq_append_right

theorem polls_cursor_eq_iff (hlive : server.mode = .live true)
    (hsorted : server.log.entries.toList.Pairwise Entry.Before) (n : Nat) :
    (polls settings server cursor n).2 = cursorAfter cursor (server.log.pending cursor) ↔
      (server.log.pending cursor).drop (n * settings.maxUpdatesPerPoll.toNat) = [] := by
  simp only [polls_eq hlive hsorted, receive]
  constructor
  · intro hreached
    rw [← pending_cursorAfter hsorted, hreached, pending_cursorAfter_self hsorted]
  · intro hnone
    rw [List.take_of_length_le (List.drop_eq_nil_iff.mp hnone)]

/-- Polling until nothing comes gives all updates behind the cursor just if no poll comes back empty
before the last of them, and it reaches the newest entry just if no entry is left behind a window
without an update.  If all entries record updates, this is always so. -/
theorem reads_everything_iff (hlive : server.mode = .live true)
    (hsorted : server.log.entries.toList.Pairwise Entry.Before)
    (hcount : 0 < settings.maxUpdatesPerPoll.toNat) (cursor : LogId) :
    let pending := server.log.pending cursor
    let count := settings.maxUpdatesPerPoll.toNat
    ∃ found reached,
      (∀ found' reached', ReadsUntilEmpty settings server cursor found' reached' ↔
        found' = found ∧ reached' = reached) ∧
      (found = updates pending ↔ ∀ k, updates (window count pending k) = [] →
        updates (pending.drop (k * count)) = []) ∧
      (reached = cursorAfter cursor pending ↔ ∀ k, updates (window count pending k) = [] →
        pending.drop ((k + 1) * count) = []) ∧
      ((∀ e ∈ pending, ∃ u, e.toUpdate = .ok u) →
        found = updates pending ∧ reached = cursorAfter cursor pending) ∧
      (pending ≠ [] → ∃ x, server.log.entries.toList.getLast? = some x ∧
        cursorAfter cursor pending = x.id) := by
  intro pending count
  obtain ⟨k, hbarren⟩ := exists_firstBarren hcount pending
  refine ⟨(polls settings server cursor (k + 1)).1, (polls settings server cursor (k + 1)).2,
    ?_, ?_, ?_, ?_, cursorAfter_pending hsorted⟩
  · intro found' reached'
    rw [readsUntilEmpty_iff hlive hsorted, ← Prod.mk.injEq]
    constructor
    · rintro ⟨m, hm, hpolls⟩
      rwa [hm.unique hbarren] at hpolls
    · intro hpolls
      exact ⟨k, hbarren, hpolls⟩
  · -- behind the first barren window nothing new can come, so that window decides for all
    rw [updates_polls_eq_iff hlive hsorted hbarren]
    exact (hbarren.forall_iff (p := fun m ↦ updates (pending.drop (m * count)) = [])
      fun m n hle hm ↦ updates_drop_of_le (Nat.mul_le_mul_right count hle) hm).symm
  · rw [polls_cursor_eq_iff hlive hsorted]
    refine (hbarren.forall_iff (p := fun m ↦ pending.drop ((m + 1) * count) = []) ?_).symm
    intro m n hle hm
    rw [List.drop_eq_nil_iff] at hm ⊢
    exact hm.trans (Nat.mul_le_mul_right count (Nat.succ_le_succ hle))
  · intro hall
    have hread : pending.drop (k * count) = [] := drop_eq_nil_of_window hcount hall hbarren.2
    rw [updates_polls_eq_iff hlive hsorted hbarren, polls_cursor_eq_iff hlive hsorted]
    constructor
    · exact (congrArg updates hread).trans rfl
    · rw [List.drop_eq_nil_iff] at hread ⊢
      exact hread.trans (Nat.mul_le_mul_right count (Nat.le_succ k))

/-- A log in which the second of three entries has a command that nobody knows. -/
def oddCommand : LogServer :=
  (LogServer.append { mode := .live true } (fun _ ↦ 1000000000000)
    [[("activate", "a")], [("explode", "now")], [("activate", "b")]]).2

def readingBy (count : UInt64) : Settings :=
  { Settings.standard with maxUpdatesPerPoll := count }

theorem oddCommand_read_by_two :
    (readingBy 2).validate = .ok () ∧
      ReadsUntilEmpty (readingBy 2) oddCommand ⟨0, 0⟩ [.activate "a", .activate "b"]
        ⟨1000000000000, 2⟩ := by
  have hsorted : oddCommand.log.entries.toList.Pairwise fun d e ↦ d.id < e.id := by
    decide +kernel
  have hlive : oddCommand.mode = .live true := rfl
  have hcount : (readingBy 2).maxUpdatesPerPoll.toNat = 2 := rfl
  have hpos : 0 < (readingBy 2).maxUpdatesPerPoll.toNat := by decide
  have hlate : ∀ k, updates (window 2 (oddCommand.log.pending ⟨0, 0⟩) k) = [] →
      (oddCommand.log.pending ⟨0, 0⟩).length ≤ k * 2 := by
    intro k hk
    match k with
    | 0 | 1 => exact absurd hk (by decide +kernel)
    | k + 2 => exact (by decide +kernel : _ ≤ 4).trans (by omega)
  obtain ⟨found, reached, houtcome, hfound, hreached, -⟩ :=
    reads_everything_iff hlive hsorted hpos ⟨0, 0⟩
  rw [hcount] at hfound hreached
  have hall : found = updates (oddCommand.log.pending ⟨0, 0⟩) :=
    hfound.mpr fun k hk ↦ (congrArg updates (List.drop_of_length_le (hlate k hk))).trans rfl
  have hend : reached = cursorAfter ⟨0, 0⟩ (oddCommand.log.pending ⟨0, 0⟩) :=
    hreached.mpr fun k hk ↦ List.drop_of_length_le ((hlate k hk).trans (by omega))
  refine ⟨rfl, (houtcome _ _).mpr ⟨?_, ?_⟩⟩
  · rw [hall]
    decide +kernel
  · rw [hend]
    decide +kernel

/-- Read one by one, the unknown command makes an empty answer, and the rest is left behind. -/
theorem oddCommand_read_by_one :
    (readingBy 1).validate = .ok () ∧
      ReadsUntilEmpty (readingBy 1) oddCommand ⟨0, 0⟩ [.activate "a"] ⟨1000000000000, 1⟩ ∧
      updates (oddCommand.log.pending ⟨0, 0⟩) = [.activate "a", .activate "b"] ∧
      (oddCommand.log.pending ⟨1000000000000, 1⟩).map Entry.id = [⟨1000000000000, 2⟩] := by
  refine ⟨rfl, ?_, by decide +kernel, by decide +kernel⟩
  have hfirst : poll (readingBy 1) oddCommand ⟨0, 0⟩ =
      ([.activate "a"], ⟨1000000000000, 0⟩, 0) := by decide +kernel
  have hsecond : poll (readingBy 1) oddCommand ⟨1000000000000, 0⟩ =
      ([], ⟨1000000000000, 1⟩, 0) := by decide +kernel
  exact .next hfirst (List.cons_ne_nil _ _) (.stop hsecond)

end TicketPool.Replica

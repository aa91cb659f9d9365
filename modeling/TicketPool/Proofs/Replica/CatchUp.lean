import TicketPool.Proofs.Replica.Acknowledgement
import TicketPool.Proofs.Replica.Polling
import TicketPool.Proofs.Store.Replay

/-!
# Catching up

A cache that starts late reads the log from its first cursor on and then sweeps.  The cursor goes
back as far as assignments are kept, but every batch that was sent has trimmed the log to the age
of tickets.  So the cache has caught up with a replay of the whole history just if all that this
replay leaves was given by entries that had not reached the age of tickets when the last batch was
sent.
-/

namespace TicketPool

/-- A batch that is sent while the clock reads `now`. -/
structure Dispatch where
  now : UInt64
  updates : List Update

namespace Replica

theorem trimPoint_le_iff {ttl : Span} {now : UInt64} {id : LogId} :
    trimPoint ttl now ≤ id ↔ monus now id.millis ≤ ttl.millis := by
  rw [trimPoint, LogId.le_iff_toNat, UInt64.le_iff_toNat_le, toNat_monus]
  simp only [LogId.ofMillis, toNat_monus, UInt64.toNat_zero]
  omega

theorem trimPoint_mono (ttl : Span) {earlier later : UInt64} (h : earlier ≤ later) :
    trimPoint ttl earlier ≤ trimPoint ttl later := by
  rw [UInt64.le_iff_toNat_le] at h
  simp only [trimPoint, LogId.le_iff_toNat, LogId.ofMillis, toNat_monus]
  omega

end Replica

namespace Chronicle

open Replica

def dispatch (ttl : Span) (c : Chronicle) (d : Dispatch) : Chronicle :=
  (c.send (fun _ ↦ d.now) ttl d.now d.updates).2

/-- A server to which batches have been sent, and nothing else. -/
def dispatched (ttl : Span) (sent : List Dispatch) : Chronicle :=
  sent.foldl (dispatch ttl) start

/-- The part of a history that is no older than tickets may get. -/
def recent (ttl : Span) (now : UInt64) (c : Chronicle) : List Entry :=
  c.history.filter fun e ↦ monus now e.id.millis ≤ ttl.millis

/-- The log of an available server keeps what was recent at the last reading of the clock. -/
structure Trimmed (ttl : Span) (last : UInt64) (c : Chronicle) : Prop where
  available : c.server.mode = .live true
  faithful : c.Faithful
  numbered : Entry.Numbered c.history
  kept : c.server.log.entries.toList = c.recent ttl last

variable {ttl : Span} {last now : UInt64} {c : Chronicle}

theorem recent_eq_filter :
    c.recent ttl now = c.history.filter fun e ↦ decide (trimPoint ttl now ≤ e.id) := by
  simp only [recent, trimPoint_le_iff]

theorem trimmed_start (ttl : Span) (last : UInt64) : start.Trimmed ttl last where
  available := rfl
  faithful := faithful_start
  numbered := fun _ he ↦ absurd he List.not_mem_nil
  kept := rfl

theorem Trimmed.commit (h : c.Trimmed ttl last) (readings : Nat → UInt64) (batch : List Fields)
    (hroom : (Replica.commit (backend readings) batch c).2.history.length < 2 ^ 64) :
    let committed := (Replica.commit (backend readings) batch c).2
    committed.server.mode = .live true ∧ committed.Faithful ∧
      Entry.Numbered committed.history ∧ ∃ news, committed.history = c.history ++ news ∧
        committed.server.log.entries.toList = c.server.log.entries.toList ++ news := by
  have hcommit : (Replica.commit (backend readings) batch c).2 = c ∨
      (Replica.commit (backend readings) batch c).2 = (c.append readings batch).2 := commit_snd
  rcases hcommit with hsame | happend
  · rw [hsame]
    exact ⟨h.available, h.faithful, h.numbered, [], by simp, by simp⟩
  · rw [happend] at hroom ⊢
    have hnumbered : Entry.Numbered (c.append readings batch).2.history :=
      h.faithful.numbered_append h.numbered
    have hfaithful := h.faithful.append (hnumbered.roomy hroom)
    refine ⟨?_, hfaithful, hnumbered, c.news readings batch, ?_, ?_⟩ <;>
      rw [append_of_available h.available]
    · exact h.available
    · rw [Log.toList_append, news]

/-- A batch is added and then the log is trimmed.  What was trimmed away before is not recent
again, since the clock has not run back. -/
theorem Trimmed.dispatch (h : c.Trimmed ttl last) (d : Dispatch) (hforward : last ≤ d.now)
    (hroom : (c.dispatch ttl d).history.length < 2 ^ 64) :
    (c.dispatch ttl d).Trimmed ttl d.now := by
  obtain ⟨hmode, hfaithful, hnumbered, news, hhistory, hentries⟩ :=
    h.commit (fun _ ↦ d.now) (entries d.updates) hroom
  obtain ⟨htrimmed, hunchanged, hlog⟩ := trim_of_live hmode (trimPoint ttl d.now)
  refine ⟨htrimmed.trans hmode, hfaithful.trim _, hnumbered, ?_⟩
  have hold : (c.recent ttl last).filter (fun e ↦ decide (trimPoint ttl d.now ≤ e.id)) =
      c.history.filter fun e ↦ decide (trimPoint ttl d.now ≤ e.id) := by
    rw [recent_eq_filter, List.filter_filter]
    apply List.filter_congr
    intro e _
    by_cases hle : trimPoint ttl d.now ≤ e.id
    · simp [hle, (trimPoint_mono ttl hforward).trans hle]
    · simp [hle]
  rw [Chronicle.dispatch, send_snd, hlog, if_pos rfl, recent_eq_filter,
    Log.trim_entries_eq_filter hfaithful.records.sorted, hunchanged, hentries, hhistory, h.kept,
    List.filter_append, List.filter_append, hold]

/-- The reading of the clock when the last batch was sent. -/
def lastReading (sent : List Dispatch) : UInt64 :=
  (sent.getLast?.map Dispatch.now).getD 0

theorem history_dispatch (ttl : Span) (c : Chronicle) (d : Dispatch) :
    c.history <+: (c.dispatch ttl d).history :=
  history_prefix_send ttl d.now d.updates

theorem trimmed_dispatched {sent : List Dispatch}
    (hordered : (sent.map Dispatch.now).Pairwise (· ≤ ·))
    (hroom : (dispatched ttl sent).history.length < 2 ^ 64) :
    (dispatched ttl sent).Trimmed ttl (lastReading sent) := by
  induction sent using List.reverseRecOn with
  | nil => exact trimmed_start ttl _
  | append_singleton sent d ih =>
    rw [List.map_append, List.pairwise_append] at hordered
    obtain ⟨hbefore, -, hcross⟩ := hordered
    have hstep : dispatched ttl (sent ++ [d]) = (dispatched ttl sent).dispatch ttl d := by
      rw [dispatched, List.foldl_append]
      rfl
    have hlast : lastReading (sent ++ [d]) = d.now := by simp [lastReading]
    have hforward : lastReading sent ≤ d.now := by
      cases hprevious : sent.getLast? with
      | none => simp [lastReading, hprevious]
      | some previous =>
        have hmem := List.mem_map_of_mem (f := Dispatch.now) (List.mem_of_getLast? hprevious)
        simpa [lastReading, hprevious] using hcross _ hmem d.now (by simp)
    rw [hstep, hlast]
    rw [hstep] at hroom
    have hshorter := (history_dispatch ttl (dispatched ttl sent) d).length_le
    exact (ih hbefore (by omega)).dispatch d hforward hroom

theorem Trimmed.recent_suffix (h : c.Trimmed ttl last) : c.recent ttl last <:+ c.history := by
  rw [← h.kept]
  exact h.faithful.records.kept

/-- A key that is not aged yet was given by an entry that was recent at every earlier reading. -/
theorem mem_recent_of_not_isAged {e : Entry} (he : e ∈ c.history) (hlater : last ≤ now)
    (hyoung : isAged now ttl.millis e.id.text = false) : e ∈ c.recent ttl last := by
  rw [recent, List.mem_filter, decide_eq_true_eq, UInt64.le_iff_toNat_le, toNat_monus]
  simp only [isAged, LogId.creationMillis?_text, decide_eq_false_iff_not, UInt64.lt_iff_toNat_lt,
    toNat_monus] at hyoung
  rw [UInt64.le_iff_toNat_le] at hlater
  exact ⟨he, by omega⟩

end Chronicle

/-- How a cache with these settings sweeps its store at an instant. -/
def Settings.sweepAt (settings : Settings) (now : Instant) : SweepRule where
  now := now
  ticketTtl := settings.ticketTtl
  assignmentTtl := settings.assignmentTtl

theorem Settings.maxUpdatesPerPoll_pos {settings : Settings} (h : settings.validate = .ok ()) :
    0 < settings.maxUpdatesPerPoll.toNat := by
  have hnonzero : settings.maxUpdatesPerPoll ≠ 0 := by
    intro hzero
    simp only [validate, flaw?, hzero] at h
    split_ifs at h
    simp_all
  rw [Nat.pos_iff_ne_zero, Ne, ← UInt64.toNat_zero, UInt64.toNat_inj]
  exact hnonzero

namespace Replica

open Chronicle

theorem exists_entry_of_mem_updates {entries : List Entry} {u : Update} (h : u ∈ updates entries) :
    ∃ e ∈ entries, e.toUpdate = .ok u := by
  obtain ⟨e, he, hu⟩ := List.mem_filterMap.mp h
  cases hupdate : e.toUpdate with
  | error reason => simp [hupdate, Except.toOption] at hu
  | ok v =>
    rw [hupdate] at hu
    exact ⟨e, he, hupdate.trans (congrArg Except.ok (Option.some.inj hu))⟩

theorem mem_updates_of_toUpdate {entries : List Entry} {e : Entry} {u : Update} (he : e ∈ entries)
    (hu : e.toUpdate = .ok u) : u ∈ updates entries :=
  List.mem_filterMap.mpr ⟨e, he, by rw [hu]; rfl⟩

/-- A ticket that is not aged yet was created by an entry that is still recent. -/
theorem recent_gives_ticket {codec : Codec} {c : Chronicle} {ttl : Span} {last now : UInt64}
    {key : String} (hlater : last ≤ now) (hyoung : isAged now ttl.millis key = false)
    (hgiven : ∃ u ∈ updates c.history, u.ticketFor? codec key ≠ none) :
    ∃ u ∈ updates (c.recent ttl last), u.ticketFor? codec key ≠ none := by
  obtain ⟨u, hu, hticket⟩ := hgiven
  obtain ⟨e, he, hupdate⟩ := exists_entry_of_mem_updates hu
  have hcreates : u.key = key ∧ u.command = .createTicket := by
    by_contra hnot
    exact hticket (if_neg hnot)
  have hkey : key = e.id.text := by
    rw [← hcreates.1]
    exact Entry.key_of_createTicket hupdate hcreates.2
  rw [hkey] at hyoung
  exact ⟨u, mem_updates_of_toUpdate (mem_recent_of_not_isAged he hlater hyoung) hupdate, hticket⟩

/-- A late cache reads what is kept until nothing is left, and ends with what a replay of the whole
history leaves, just if this was given by entries that were recent when the last batch was sent.
The tickets that are not aged are all there. -/
theorem caught_up_iff (codec : Codec) (settings : Settings) (sent : List Dispatch) (now : Instant)
    (hvalid : settings.validate = .ok ()) (hordered : (sent.map Dispatch.now).Pairwise (· ≤ ·))
    (hlater : lastReading sent ≤ now.millis)
    (hroom : (dispatched settings.ticketTtl sent).history.length < 2 ^ 64)
    (hreach : ∀ e ∈ (dispatched settings.ticketTtl sent).history,
      initialCursor settings now.millis < e.id) :
    let c := dispatched settings.ticketTtl sent
    let read := polls settings c.server (initialCursor settings now.millis)
    let full := Store.replay codec (updates c.history) (settings.sweepAt now)
    c.server.log.pending (read c.server.log.entries.size).2 = [] ∧
      ∀ n, c.server.log.pending (read n).2 = [] →
        let late := Store.replay codec (read n).1 (settings.sweepAt now)
        (late = full ↔ ∀ key, KeyView.Backed codec key
          (updates (c.recent settings.ticketTtl (lastReading sent))) (full.view key)) ∧
        ∀ key, full.ticket? key ≠ none →
          isAged now.millis settings.ticketTtl.millis key = false →
          late.ticket? key = full.ticket? key ∧ late.isInactive key = full.isInactive key := by
  intro c read full
  have htrimmed : c.Trimmed settings.ticketTtl (lastReading sent) :=
    trimmed_dispatched hordered hroom
  have hsorted := htrimmed.faithful.records.sorted
  have hcount := Settings.maxUpdatesPerPoll_pos hvalid
  refine ⟨pending_polls_eq_nil htrimmed.available hsorted hcount _ (Nat.le_refl _), ?_⟩
  intro n hexhausted late
  -- All that is kept lies behind the first cursor.
  have hread : (read n).1 = updates (c.recent settings.ticketTtl (lastReading sent)) := by
    rw [polls_of_exhausted htrimmed.available hsorted hexhausted, Log.pending, htrimmed.kept,
      List.filter_eq_self.mpr]
    intro e he
    rw [decide_eq_true_eq]
    exact hreach e (htrimmed.recent_suffix.subset he)
  obtain ⟨old, hold⟩ := htrimmed.recent_suffix
  have hfull : full = Store.replay codec
      (updates old ++ updates (c.recent settings.ticketTtl (lastReading sent)))
      (settings.sweepAt now) := by
    rw [← updates_append, hold]
  have hlate : late = Store.replay codec
      (updates (c.recent settings.ticketTtl (lastReading sent))) (settings.sweepAt now) := by
    rw [← hread]
  constructor
  · rw [hlate, hfull]
    constructor
    · intro hsame key
      exact Store.view_replay_suffix_eq_iff.mp (congrArg (fun s ↦ s.view key) hsame)
    · intro hbacked
      exact Store.eq_of_view fun key ↦ Store.view_replay_suffix_eq_iff.mpr (hbacked key)
  · intro key hticket hyoung
    have hbacked : KeyView.Backed codec key (updates c.history) (full.view key) :=
      Store.backed_replay (updates c.history)
    have hgiven := hbacked.ticket hticket
    have hrecent := recent_gives_ticket hlater hyoung hgiven
    rw [hlate, hfull]
    simpa only [Store.view] using Store.replay_ticket_eq hrecent

/-- An assignment is sent, and a ticket a quarter of an hour later. -/
def longPause : List Dispatch :=
  [⟨1000000000000, [.assign "1000000000000-0" "\x7b\"connection\":\"a\"\x7d"]⟩,
    ⟨1000000900000, [.createTicket "\x7b\"expiration_time\":\"2030-01-01T00:00:00Z\"\x7d"]⟩]

/-- The assignment would be kept for twenty minutes, but it was trimmed after ten. -/
theorem trimmed_assignment_missed :
    let now := Instant.ofMillis 1000000900000
    let c := dispatched Settings.standard.ticketTtl longPause
    let read := polls .standard c.server (initialCursor .standard now.millis)
    let full := Store.replay .json (updates c.history) (Settings.standard.sweepAt now)
    Settings.standard.validate = .ok () ∧ (longPause.map Dispatch.now).Pairwise (· ≤ ·) ∧
      (∀ e ∈ c.history, initialCursor .standard now.millis < e.id) ∧
      c.server.log.pending (read 2).2 = [] ∧
      Store.replay .json (read 2).1 (Settings.standard.sweepAt now) ≠ full := by
  intro now c read full
  refine ⟨by decide +kernel, by decide, by decide +kernel, by decide +kernel, ?_⟩
  intro hsame
  have hkept := congrArg (fun s ↦ (s.assignment? "1000000000000-0").isSome) hsame
  revert hkept
  decide +kernel

theorem longPause_caught_up :
    let now := Instant.ofMillis 1000000900000
    let c := dispatched Settings.standard.ticketTtl longPause
    let read := polls .standard c.server (initialCursor .standard now.millis)
    let full := Store.replay .json (updates c.history) (Settings.standard.sweepAt now)
    let late := Store.replay .json (read 2).1 (Settings.standard.sweepAt now)
    c.history.length = 2 ∧ c.server.log.entries.size = 1 ∧
      full.ticket? "1000000900000-0" ≠ none ∧
      late.ticket? "1000000900000-0" = full.ticket? "1000000900000-0" := by
  intro now c read full late
  have hcount : c.history.length = 2 := by decide +kernel
  have hticket : full.ticket? "1000000900000-0" ≠ none := by
    have hcontains : (full.ticket? "1000000900000-0").isSome = true := by decide +kernel
    intro hnone
    simp [hnone] at hcontains
  obtain ⟨-, hread⟩ := caught_up_iff .json .standard longPause now (by decide +kernel) (by decide)
    (by decide) (by rw [hcount]; decide) (by decide +kernel)
  obtain ⟨-, hyoung⟩ := hread 2 (by decide +kernel)
  obtain ⟨hsame, -⟩ := hyoung "1000000900000-0" hticket (by decide +kernel)
  exact ⟨hcount, by decide +kernel, hticket, hsame⟩

end Replica

end TicketPool

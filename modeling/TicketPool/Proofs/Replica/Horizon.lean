import TicketPool.Proofs.Replica.CatchUp

/-!
# How far back a first cursor reaches

A new cache reads from the earliest millisecond whose assignments are still kept.  It reads
strictly after its cursor, and the cursor is itself an id of that millisecond: the first one.  So
it is given all that is kept, except an entry that stands right at the cursor.
-/

namespace TicketPool

/-- Whether an assignment under an id is still kept at a millisecond. -/
def Settings.Keeps (settings : Settings) (now : UInt64) (id : LogId) : Prop :=
  monus now id.millis ≤ settings.assignmentTtl.millis

instance (settings : Settings) (now : UInt64) (id : LogId) : Decidable (settings.Keeps now id) :=
  inferInstanceAs (Decidable (_ ≤ _))

namespace Replica

open Chronicle

variable {settings : Settings} {now : UInt64} {id : LogId}

theorem isAged_iff_not_keeps :
    isAged now settings.assignmentTtl.millis id.text = true ↔ ¬ settings.Keeps now id := by
  rw [isAged, LogId.creationMillis?_text, decide_eq_true_eq, Settings.Keeps, UInt64.not_le]

theorem assignment?_sweepAt {s : Store} {assignment : Assignment} (instant : Instant)
    (hnow : instant.millis = now) (hstored : s.assignment? id.text = some assignment) :
    (s.sweep (settings.sweepAt instant)).assignment? id.text = some assignment ↔
      settings.Keeps now id := by
  have hswept : (s.sweep (settings.sweepAt instant)).assignment? id.text =
      if isAged now settings.assignmentTtl.millis id.text then none
      else s.assignment? id.text := by
    rw [← hnow]
    exact congrArg KeyView.assignment (Store.view_sweep _ s id.text)
  rw [hswept, hstored]
  simp only [isAged_iff_not_keeps]
  by_cases hkept : settings.Keeps now id <;> simp [hkept]

/-- The cursor stands at the first id of the earliest millisecond that is kept. -/
theorem initialCursor_le_iff : initialCursor settings now ≤ id ↔ settings.Keeps now id := by
  rw [Settings.Keeps, LogId.le_iff_toNat, UInt64.le_iff_toNat_le, toNat_monus]
  simp only [initialCursor, Settings.initialCursor, LogId.ofMillis, toNat_monus,
    UInt64.toNat_zero]
  omega

theorem initialCursor_lt_iff :
    initialCursor settings now < id ↔
      settings.Keeps now id ∧ id ≠ initialCursor settings now := by
  rw [← initialCursor_le_iff, ne_comm]
  exact lt_iff_le_and_ne

theorem pending_initialCursor (log : Log) :
    log.pending (initialCursor settings now) = log.entries.toList.filter fun e ↦
      settings.Keeps now e.id ∧ e.id ≠ initialCursor settings now := by
  rw [Log.pending]
  apply List.filter_congr
  intro e _
  rw [decide_eq_decide]
  exact initialCursor_lt_iff

/-- A new cache that reads a log to its end is given the entries under whose ids an assignment
is still kept, without the one at its first cursor. -/
theorem delivered_iff_kept (settings : Settings) (now : UInt64) :
    let cursor := initialCursor settings now
    (∀ (s : Store) (instant : Instant) (id : LogId) (assignment : Assignment),
      instant.millis = now → s.assignment? id.text = some assignment →
        ((s.sweep (settings.sweepAt instant)).assignment? id.text = some assignment ↔
          settings.Keeps now id)) ∧
    (∀ id, cursor < id ↔ settings.Keeps now id ∧ id ≠ cursor) ∧
    ∀ (server : LogServer) (n : Nat), settings.validate = .ok () → server.mode = .live true →
      server.log.entries.toList.Pairwise Entry.Before → server.log.entries.size ≤ n →
        (polls settings server cursor n).1 =
          updates (server.log.entries.toList.filter fun e ↦
            settings.Keeps now e.id ∧ e.id ≠ cursor) := by
  intro cursor
  refine ⟨fun s instant id assignment ↦ assignment?_sweepAt instant, fun id ↦
    initialCursor_lt_iff, ?_⟩
  intro server n hvalid hlive hsorted hn
  have hcount := Settings.maxUpdatesPerPoll_pos hvalid
  rw [polls_of_exhausted hlive hsorted (pending_polls_eq_nil hlive hsorted hcount cursor hn),
    pending_initialCursor]

/-- A ticket is assigned and activated within one millisecond. -/
def oneMoment : List Dispatch :=
  [⟨1000000000000, [.assign "1000000000000-0" "\x7b\"connection\":\"a\"\x7d",
    .activate "1000000000000-0"]⟩]

/-- Twenty minutes later a new cache is given the activation, which has the second id of that
millisecond. -/
theorem oneMoment_delivered :
    let now := Instant.ofMillis 1000001200000
    let c := dispatched Settings.standard.ticketTtl oneMoment
    let cursor := initialCursor .standard now.millis
    c.server.log.entries.size = 2 ∧ cursor = ⟨1000000000000, 0⟩ ∧
      cursor < ⟨1000000000000, 1⟩ ∧
      (polls .standard c.server cursor 2).1 = [.activate "1000000000000-0"] := by
  intro now c cursor
  have hcursor : cursor = ⟨1000000000000, 0⟩ := by decide +kernel
  obtain ⟨-, hafter, hpolls⟩ := delivered_iff_kept .standard now.millis
  have hsecond : cursor < ⟨1000000000000, 1⟩ :=
    (hafter ⟨1000000000000, 1⟩).mpr (by decide +kernel)
  have htrimmed : c.Trimmed Settings.standard.ticketTtl (lastReading oneMoment) :=
    trimmed_dispatched (by decide) (by decide +kernel)
  refine ⟨by decide +kernel, hcursor, hsecond, ?_⟩
  rw [hpolls c.server 2 (by decide +kernel) htrimmed.available htrimmed.faithful.records.sorted
    (by decide +kernel)]
  decide +kernel

/-- The assignment has the first id of that millisecond.  A sweep still keeps it, and the log still
has it, but a new cache is not given it. -/
theorem oldest_assignment_missed :
    let now := Instant.ofMillis 1000001200000
    let c := dispatched Settings.standard.ticketTtl oneMoment
    let cursor := initialCursor .standard now.millis
    let replayed := Store.replay .json (updates c.history) (Settings.standard.sweepAt now)
    Settings.standard.Keeps now.millis ⟨1000000000000, 0⟩ ∧
      (replayed.assignment? (LogId.mk 1000000000000 0).text).isSome = true ∧
      c.server.log.entries[0]?.map Entry.id = some ⟨1000000000000, 0⟩ ∧
      ¬ cursor < ⟨1000000000000, 0⟩ ∧
      (polls .standard c.server cursor 2).1 = [.activate "1000000000000-0"] := by
  decide +kernel

end Replica

end TicketPool

import TicketPool.Proofs.Store.Lifetime

/-!
# Replays

A replay applies updates to the empty store and sweeps it once.  What it leaves of a key is told
by the last ticket, the last command and the last assignment of the key.  So the updates at the
end of a history do for all of it, as far as what is left has been given by them.
-/

namespace TicketPool

open StoreStep

namespace Store

/-- The store that updates leave behind after one sweep. -/
def replay (codec : Codec) (us : List Update) (rule : SweepRule) : Store :=
  (empty.run codec (us.map .update)).sweep rule

variable {codec : Codec} {key : String} {rule : SweepRule}

/-- What updates leave of a key while nothing is swept. -/
def gathered (codec : Codec) (key : String) (us : List Update) : KeyView where
  ticket := lastTicket codec key (us.map .update)
  marked := ((lastCommand codec key (us.map .update)).map fun c ↦ decide (c ≠ .activate)).getD false
  assignment := lastAssignment codec key (us.map .update)

theorem view_run_updates (us : List Update) :
    (empty.run codec (us.map .update)).view key = gathered codec key us := by
  induction us using List.reverseRecOn with
  | nil =>
    simp [gathered, run, view, ticket?, isInactive, assignment?, empty, lastTicket, lastCommand,
      lastAssignment, lastOf, updates]
  | append_singleton us u ih =>
    rw [List.map_append, List.map_singleton, view_run_concat, ih, KeyView.step_update, gathered,
      gathered, List.map_append, List.map_singleton]
    simp only [lastTicket, lastCommand, lastAssignment, lastOf_update]
    cases u.commandFor? codec key <;> rfl

theorem view_replay (us : List Update) :
    (replay codec us rule).view key = (gathered codec key us).sweep rule key := by
  rw [replay, view_sweep, view_run_updates]

end Store

/-- Whether each thing that is known of a key was given by one of these updates. -/
structure KeyView.Backed (codec : Codec) (key : String) (us : List Update) (v : KeyView) :
    Prop where
  ticket : v.ticket ≠ none → ∃ u ∈ us, u.ticketFor? codec key ≠ none
  mark : v.marked = true → ∃ u ∈ us, u.commandFor? codec key ≠ none
  assignment : v.assignment ≠ none → ∃ u ∈ us, u.assignmentFor? codec key ≠ none

namespace StoreStep

theorem updates_map_update (us : List Update) : updates (us.map .update) = us := by
  exact (List.filterMap_map ..).trans List.filterMap_some

theorem lastOf_map_update_ne_none_iff {α : Type} {gives : Update → Option α} {us : List Update} :
    lastOf gives (us.map .update) ≠ none ↔ ∃ u ∈ us, gives u ≠ none := by
  rw [Ne, lastOf_eq_none_iff, updates_map_update]
  simp

end StoreStep

namespace Store

section Suffix

variable {codec : Codec} {key : String} {rule : SweepRule} {old kept : List Update}

theorem gathered_mark_eq (old : List Update) (h : ∃ u ∈ kept, u.commandFor? codec key ≠ none) :
    (gathered codec key (old ++ kept)).marked = (gathered codec key kept).marked := by
  obtain ⟨c, hc⟩ := Option.ne_none_iff_exists'.mp (lastOf_map_update_ne_none_iff.mpr h)
  simp only [gathered, List.map_append, lastCommand, lastOf_append, hc, Option.some_or]

/-- The creation of a ticket has set a mark as well. -/
theorem gathered_ticket_eq (old : List Update) (h : ∃ u ∈ kept, u.ticketFor? codec key ≠ none) :
    (gathered codec key (old ++ kept)).ticket = (gathered codec key kept).ticket ∧
      (gathered codec key (old ++ kept)).marked = (gathered codec key kept).marked := by
  obtain ⟨ticket, hticket⟩ := Option.ne_none_iff_exists'.mp (lastOf_map_update_ne_none_iff.mpr h)
  constructor
  · simp only [gathered, List.map_append, lastTicket, lastOf_append, hticket, Option.some_or]
  · refine gathered_mark_eq old (lastOf_map_update_ne_none_iff.mp ?_)
    have hlast : lastTicket codec key (kept.map .update) = some ticket := hticket
    exact lastCommand_ne_none hlast

theorem gathered_assignment_eq (old : List Update)
    (h : ∃ u ∈ kept, u.assignmentFor? codec key ≠ none) :
    (gathered codec key (old ++ kept)).assignment = (gathered codec key kept).assignment := by
  obtain ⟨assignment, hassignment⟩ :=
    Option.ne_none_iff_exists'.mp (lastOf_map_update_ne_none_iff.mpr h)
  simp only [gathered, List.map_append, lastAssignment, lastOf_append, hassignment, Option.some_or]

theorem backed_replay (us : List Update) :
    KeyView.Backed codec key us ((replay codec us rule).view key) where
  ticket h := by
    refine lastOf_map_update_ne_none_iff.mp fun hnone ↦ h ?_
    simp [view_replay, gathered, KeyView.sweep, lastTicket, hnone]
  mark h := by
    refine lastOf_map_update_ne_none_iff.mp fun hnone ↦ ?_
    simp [view_replay, gathered, KeyView.sweep, lastCommand, hnone] at h
  assignment h := by
    refine lastOf_map_update_ne_none_iff.mp fun hnone ↦ h ?_
    simp [view_replay, gathered, KeyView.sweep, lastAssignment, hnone]

/-- A ticket that was given by the last updates is left as all of the history leaves it, and so is
its mark. -/
theorem replay_ticket_eq (h : ∃ u ∈ kept, u.ticketFor? codec key ≠ none) :
    ((replay codec kept rule).view key).ticket =
        ((replay codec (old ++ kept) rule).view key).ticket ∧
      ((replay codec kept rule).view key).marked =
        ((replay codec (old ++ kept) rule).view key).marked := by
  obtain ⟨hticket, hmarked⟩ := gathered_ticket_eq old h
  rw [view_replay, view_replay, KeyView.sweep, KeyView.sweep, hticket, hmarked]
  exact ⟨rfl, rfl⟩

/-- The last updates of a history leave the same of a key as all of it, just if all that is left
was given by them. -/
theorem view_replay_suffix_eq_iff :
    (replay codec kept rule).view key = (replay codec (old ++ kept) rule).view key ↔
      KeyView.Backed codec key kept ((replay codec (old ++ kept) rule).view key) := by
  constructor
  · intro hsame
    rw [← hsame]
    exact backed_replay kept
  · intro hbacked
    have hshort : KeyView.Backed codec key kept ((replay codec kept rule).view key) :=
      backed_replay kept
    apply KeyView.ext
    · by_cases hgiven : ∃ u ∈ kept, u.ticketFor? codec key ≠ none
      · exact (replay_ticket_eq hgiven).1
      · rw [not_not.mp (mt hshort.ticket hgiven), not_not.mp (mt hbacked.ticket hgiven)]
    · by_cases hgiven : ∃ u ∈ kept, u.commandFor? codec key ≠ none
      · rw [view_replay, view_replay, KeyView.sweep, KeyView.sweep, gathered_mark_eq old hgiven]
      · rw [Bool.eq_false_iff.mpr (mt hshort.mark hgiven),
          Bool.eq_false_iff.mpr (mt hbacked.mark hgiven)]
    · by_cases hgiven : ∃ u ∈ kept, u.assignmentFor? codec key ≠ none
      · rw [view_replay, view_replay, KeyView.sweep, KeyView.sweep,
          gathered_assignment_eq old hgiven]
      · rw [not_not.mp (mt hshort.assignment hgiven), not_not.mp (mt hbacked.assignment hgiven)]

end Suffix

end Store

end TicketPool

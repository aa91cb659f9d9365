import TicketPool.Intake
import TicketPool.Proofs.Store.KeyView

/-!
# From the poll to the store

Updates that a poll has read are handed on in order: what has been taken from the channel,
what stands in it and what still waits for room are together what the polls have returned.
The store has been given just what was taken.
-/

namespace TicketPool

theorem drainUntil_append (deadline : Nat) (clock : Nat → Nat) (updates : List Update) :
    (drainUntil deadline clock updates).taken ++ (drainUntil deadline clock updates).left =
      updates := by
  fun_induction drainUntil deadline clock updates with
  | case1 => rfl
  | case2 => rfl
  | case3 clock u rest hgoes later ih => simpa using ih

namespace Intake

/-- The updates that are on their way to the store, the next one first. -/
def onTheWay (i : Intake) : List Update :=
  i.channel ++ i.pending

variable (i : Intake)

theorem onTheWay_deliver (updates : List Update) :
    (i.deliver updates).onTheWay = i.onTheWay ++ updates := by
  unfold deliver onTheWay
  split
  · rename_i hnone
    simp [hnone]
  · simp

theorem store_deliver (updates : List Update) :
    (i.deliver updates).store = i.store ∧
      (i.deliver updates).tally.sweeps = i.tally.sweeps := by
  unfold deliver
  split <;> exact ⟨rfl, rfl⟩

theorem onTheWay_foldl_deliver (batches : List (List Update)) :
    (batches.foldl deliver i).onTheWay = i.onTheWay ++ batches.flatten := by
  induction batches generalizing i with
  | nil => simp
  | cons updates rest ih =>
    rw [List.foldl_cons, ih, onTheWay_deliver, List.flatten_cons, List.append_assoc]

theorem store_foldl_deliver (batches : List (List Update)) :
    (batches.foldl deliver i).store = i.store ∧
      (batches.foldl deliver i).tally.sweeps = i.tally.sweeps := by
  induction batches generalizing i with
  | nil => exact ⟨rfl, rfl⟩
  | cons updates rest ih =>
    obtain ⟨hstore, hsweeps⟩ := ih (i.deliver updates)
    obtain ⟨hfirst, hcount⟩ := i.store_deliver updates
    exact ⟨hstore.trans hfirst, hsweeps.trans hcount⟩

theorem onTheWay_push : i.push.onTheWay = i.onTheWay := by
  unfold push onTheWay
  cases hpending : i.pending with
  | nil => simp [hpending]
  | cons u rest =>
    simp only
    split <;> simp [hpending]

theorem store_push : i.push.store = i.store ∧ i.push.tally.sweeps = i.tally.sweeps := by
  unfold push
  split
  · split <;> exact ⟨rfl, rfl⟩
  · exact ⟨rfl, rfl⟩

theorem apply_eq (codec : Codec) (u : Update) :
    ∃ tally, tally.sweeps = i.tally.sweeps ∧
      i.apply codec u = { i with store := i.store.absorb codec u, tally } := by
  unfold apply Store.absorb
  cases i.store.apply codec u with
  | ok store => exact ⟨{ i.tally with applied := i.tally.applied + 1 }, rfl, rfl⟩
  | error e => exact ⟨{ i.tally with failures := i.tally.failures + 1 }, rfl, rfl⟩

theorem foldl_apply_eq (codec : Codec) (updates : List Update) :
    ∃ tally, tally.sweeps = i.tally.sweeps ∧
      updates.foldl (apply codec) i =
        { i with store := updates.foldl (Store.absorb codec) i.store, tally } := by
  induction updates generalizing i with
  | nil => exact ⟨i.tally, rfl, rfl⟩
  | cons u rest ih =>
    obtain ⟨first, hfirst, happly⟩ := i.apply_eq codec u
    obtain ⟨tally, hsweeps, hrest⟩ := ih (i.apply codec u)
    refine ⟨tally, ?_, ?_⟩
    · rw [hsweeps, happly, hfirst]
    · rw [List.foldl_cons, hrest, happly]
      rfl

/-- A drain takes the first updates of the channel and gives them to the store. -/
theorem drain_eq (codec : Codec) (deadline : Nat) (clock : Nat → Nat) :
    ∃ tally, tally.sweeps = i.tally.sweeps ∧
      i.drain codec deadline clock =
        { i with
          channel := (drainUntil deadline clock i.channel).left
          store := (drainUntil deadline clock i.channel).taken.foldl (Store.absorb codec) i.store
          tally } := by
  obtain ⟨tally, hsweeps, happlied⟩ :=
    { i with channel := (drainUntil deadline clock i.channel).left : Intake }.foldl_apply_eq codec
      (drainUntil deadline clock i.channel).taken
  unfold drain
  simp only [happlied]
  split
  · exact ⟨{ tally with holdTimeouts := tally.holdTimeouts + 1 }, hsweeps, rfl⟩
  · exact ⟨tally, hsweeps, rfl⟩

end Intake

end TicketPool

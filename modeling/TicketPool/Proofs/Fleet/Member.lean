import TicketPool.Proofs.Intake.Handoff
import TicketPool.Proofs.Replica.Delivery

/-!
# The reading side of a cache

A member of a fleet is what one cache does with a log that it shares: it calls for updates,
hands them on, drains its channel into its store and sweeps the store, each whenever it comes
to it.  The updates that it has taken from its channel are on record.
-/

namespace TicketPool

/-- How a member is opened: its first cursor, how much one call reads and how long it waits,
and how many updates the channel holds. -/
structure Opening where
  cursor : LogId
  count : Nat
  block : Nat
  capacity : Nat

inductive MemberStep where
  | turn (now : Nat)
  | push
  | drain (deadline : Nat) (clock : Nat → Nat)
  | sweep (rule : SweepRule)

/-- A subscriber with the intake that it feeds, and all updates taken from the channel. -/
structure Member where
  subscriber : Subscriber
  intake : Intake
  taken : List Update := []

namespace Member

def fresh (o : Opening) : Member where
  subscriber := { count := o.count, block := o.block, cursor := o.cursor }
  intake := { capacity := o.capacity }

/-- Takes one step.  What a call returns goes to the intake as soon as it comes back. -/
def step (codec : Codec) (server : LogServer) (m : Member) : MemberStep → Member
  | .turn now =>
    let subscriber := m.subscriber.turn server now
    let back := subscriber.calls.drop m.subscriber.calls.length
    { m with subscriber, intake := (back.map Call.returned).foldl Intake.deliver m.intake }
  | .push => { m with intake := m.intake.push }
  | .drain deadline clock =>
    { m with
      intake := m.intake.drain codec deadline clock
      taken := m.taken ++ (drainUntil deadline clock m.intake.channel).taken }
  | .sweep rule => { m with intake := m.intake.sweep rule }

end Member

theorem Subscriber.calls_prefix_turn (s : Subscriber) (server : LogServer) (now : Nat) :
    s.calls <+: (s.turn server now).calls := by
  have hsettle : ∀ reader, s.calls <+: (s.settle server reader).calls := by
    intro reader
    cases reader with
    | waiting => exact List.prefix_refl _
    | done time result => exact List.prefix_append _ _
  unfold turn
  split <;> exact hsettle _

/-- How far a member has come with a history, if it has lost nothing. -/
structure Keeping (codec : Codec) (o : Opening) (c : Chronicle) (m : Member) : Prop where
  delivered : Delivered o.cursor c m.subscriber
  caught : ∀ e ∈ c.history, o.cursor < e.id → e.id ≤ m.subscriber.cursor →
    m.subscriber.Caught e
  handed : m.taken ++ m.intake.onTheWay = m.subscriber.received
  replayed : m.intake.tally.sweeps = 0 →
    m.intake.store = m.taken.foldl (Store.absorb codec) Store.empty

namespace Keeping

variable {codec : Codec} {o : Opening} {c d : Chronicle} {m : Member}

theorem fresh (codec : Codec) (o : Opening) : Keeping codec o .start (.fresh o) where
  delivered := Delivered.start o.cursor o.count o.block
  caught := fun _ he ↦ absurd he List.not_mem_nil
  handed := rfl
  replayed := fun _ ↦ rfl

theorem extend (h : Keeping codec o c m) (hgrown : c.history <+: d.history)
    (hascending : d.history.Pairwise Entry.Before) : Keeping codec o d m where
  delivered := h.delivered.extend hgrown hascending
  caught := by
    obtain ⟨news, hnews⟩ := hgrown
    intro e he hstart hle
    rw [← hnews] at he hascending
    rcases List.mem_append.mp he with hold | hnew
    · exact h.caught e hold hstart hle
    · exact absurd hle (not_le.mpr (h.delivered.cursor_lt_news hascending hnew hstart))
  handed := h.handed
  replayed := h.replayed

/-- A step of a member for which no entry was trimmed that it had not read. -/
theorem step (h : Keeping codec o c m) (hc : c.Faithful)
    (hunlost : ∀ e ∈ c.history, e ∈ c.server.log.entries.toList ∨ e.id ≤ m.subscriber.cursor)
    (op : MemberStep) : Keeping codec o c (m.step codec c.server op) := by
  cases op with
  | turn now =>
    obtain ⟨back, hback⟩ := m.subscriber.calls_prefix_turn c.server now
    refine ⟨h.delivered.turn hc now, ?_, ?_, ?_⟩
    · intro e he hstart hle
      refine (h.delivered.caught_turn hc now).mpr ?_
      by_cases hbefore : e.id ≤ m.subscriber.cursor
      · exact .inl (h.caught e he hstart hbefore)
      · exact .inr ⟨not_le.mp hbefore, hle, (hunlost e he).resolve_right hbefore⟩
    · have hreceived : (m.subscriber.turn c.server now).received =
          m.subscriber.received ++ (back.map Call.returned).flatten := by
        rw [Subscriber.received, ← hback, List.flatMap_append, List.flatMap_def]
        rfl
      simp only [Member.step, ← hback, List.drop_left, Intake.onTheWay_foldl_deliver]
      rw [← List.append_assoc, h.handed, hreceived]
    · simp only [Member.step, Intake.store_foldl_deliver]
      exact h.replayed
  | push =>
    refine ⟨h.delivered, h.caught, ?_, ?_⟩
    · simp only [Member.step, Intake.onTheWay_push]
      exact h.handed
    · simp only [Member.step, Intake.store_push]
      exact h.replayed
  | drain deadline clock =>
    obtain ⟨tally, hsweeps, hdrain⟩ := m.intake.drain_eq codec deadline clock
    refine ⟨h.delivered, h.caught, ?_, ?_⟩
    · have hchannel := drainUntil_append deadline clock m.intake.channel
      simp only [Member.step, hdrain, Intake.onTheWay]
      rw [List.append_assoc, ← List.append_assoc _ _ m.intake.pending, hchannel]
      exact h.handed
    · simp only [Member.step, hdrain, hsweeps, List.foldl_append]
      intro hnone
      rw [h.replayed hnone]
  | sweep rule =>
    refine ⟨h.delivered, h.caught, h.handed, ?_⟩
    intro hnone
    cases hnone

/-- What has been taken is the beginning of what the history records. -/
theorem taken_begins (h : Keeping codec o c m) (hc : c.Faithful)
    (hbelow : ∀ e ∈ c.history, o.cursor < e.id) : m.taken <+: Replica.updates c.history := by
  have hread : c.history.filter (fun e ↦ o.cursor < e.id ∧ e.id ≤ m.subscriber.cursor ∧
        m.subscriber.Caught e) =
      c.history.filter fun e ↦ e.id ≤ m.subscriber.cursor := by
    apply List.filter_congr
    intro e he
    rw [decide_eq_decide]
    constructor
    · rintro ⟨-, hle, -⟩
      exact hle
    · intro hle
      exact ⟨hbelow e he, hle, h.caught e he (hbelow e he) hle⟩
  have hreceived : m.subscriber.received <+: Replica.updates c.history := by
    rw [h.delivered.received, hread]
    exact (Entry.filter_le_prefix hc.records.ascending _).filterMap _
  rw [← h.handed] at hreceived
  exact (List.prefix_append _ _).trans hreceived

end Keeping

end TicketPool

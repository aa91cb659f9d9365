import TicketPool.Proofs.Intake.Handoff
import TicketPool.Proofs.Store.Lifetime

/-!
# The way in as two tasks

The poller takes over what polls return and pushes it into the channel, the applier takes it
from there and sweeps, and the two take turns in any order.  Nothing is lost, repeated or moved
on the way, the store is what it was given makes of it, and the tallies count what happened.
-/

namespace TicketPool

/-- A step of the poller or of the applier.  A drain that other steps come between is a number of
single takes. -/
inductive IntakeStep where
  | poll (batch : List Update)
  | push
  | take
  | drain (deadline : Nat) (clock : Nat → Nat)
  | sweep (rule : SweepRule)

namespace IntakeStep

def batches (steps : List IntakeStep) : List (List Update) :=
  steps.filterMap fun
    | .poll batch => some batch
    | _ => none

def sweeps (steps : List IntakeStep) : List SweepRule :=
  steps.filterMap fun
    | .sweep rule => some rule
    | _ => none

theorem batches_cons (op : IntakeStep) (rest : List IntakeStep) :
    batches (op :: rest) = batches [op] ++ batches rest :=
  List.filterMap_append (l := [op])

theorem batches_of_not_poll {op : IntakeStep} (h : ∀ batch, op ≠ .poll batch) :
    batches [op] = [] := by
  cases op with
  | poll batch => exact absurd rfl (h batch)
  | push | take | drain | sweep => rfl

end IntakeStep

namespace StoreStep

def sweeps (steps : List StoreStep) : List SweepRule :=
  steps.filterMap fun
    | .sweep rule => some rule
    | .update _ => none

theorem sweeps_append (first second : List StoreStep) :
    sweeps (first ++ second) = sweeps first ++ sweeps second :=
  List.filterMap_append

theorem sweeps_map_update (taken : List Update) : sweeps (taken.map .update) = [] := by
  rw [sweeps, List.filterMap_map, List.filterMap_eq_nil_iff]
  exact fun _ _ ↦ rfl

end StoreStep

def Update.decodes (codec : Codec) (u : Update) : Bool :=
  (u.writes codec).isOk

def StoreStep.decodes (codec : Codec) : StoreStep → Bool
  | .update u => u.decodes codec
  | .sweep _ => true

namespace Store

variable {codec : Codec}

/-- How many entries the sweeps of a run expire in all. -/
def expired (codec : Codec) : Store → List StoreStep → Nat
  | _, [] => 0
  | s, .update u :: rest => (s.absorb codec u).expired codec rest
  | s, .sweep rule :: rest => (s.sweepReport rule).total + (s.sweep rule).expired codec rest

theorem run_append (s : Store) (first second : List StoreStep) :
    s.run codec (first ++ second) = (s.run codec first).run codec second :=
  List.foldl_append

theorem expired_append (s : Store) (first second : List StoreStep) :
    s.expired codec (first ++ second) =
      s.expired codec first + (s.run codec first).expired codec second := by
  induction first generalizing s with
  | nil => exact (Nat.zero_add _).symm
  | cons op rest ih =>
    cases op with
    | update u => exact ih (s.absorb codec u)
    | sweep rule =>
      rw [List.cons_append, expired, ih, ← Nat.add_assoc]
      rfl

theorem absorb_of_not_decodes {u : Update} (h : ¬ u.decodes codec = true) (s : Store) :
    s.absorb codec u = s := by
  rw [Update.decodes] at h
  rw [absorb, apply]
  cases hwrites : u.writes codec with
  | error e => rfl
  | ok writes =>
    rw [hwrites] at h
    exact absurd rfl h

/-- Updates that cannot be decoded may as well be left out. -/
theorem run_filter_decodes (s : Store) (steps : List StoreStep) :
    s.run codec (steps.filter (·.decodes codec)) = s.run codec steps := by
  induction steps generalizing s with
  | nil => rfl
  | cons op rest ih =>
    by_cases hdecodes : op.decodes codec = true
    · rw [List.filter_cons_of_pos hdecodes]
      exact ih (s.step codec op)
    · rw [List.filter_cons_of_neg hdecodes, ih]
      cases op with
      | sweep rule => exact absurd rfl hdecodes
      | update u =>
        have hsame : s.absorb codec u = s := absorb_of_not_decodes hdecodes s
        calc s.run codec rest = (s.absorb codec u).run codec rest := by rw [hsame]
          _ = s.run codec (.update u :: rest) := rfl

end Store

namespace Intake

open StoreStep

def takeOne (codec : Codec) (i : Intake) : Intake :=
  match i.channel with
  | [] => i
  | u :: rest => { i with channel := rest }.apply codec u

def act (codec : Codec) (i : Intake) : IntakeStep → Intake
  | .poll batch => i.deliver batch
  | .push => i.push
  | .take => i.takeOne codec
  | .drain deadline clock => i.drain codec deadline clock
  | .sweep rule => i.sweep rule

/-- What a step gives to the store. -/
def given (i : Intake) : IntakeStep → List StoreStep
  | .poll _ | .push => []
  | .take => (i.channel.take 1).map .update
  | .drain deadline clock => (drainUntil deadline clock i.channel).taken.map .update
  | .sweep rule => [.sweep rule]

def run (codec : Codec) (i : Intake) (steps : List IntakeStep) : Intake :=
  steps.foldl (act codec) i

/-- What the store is given in a run, in order. -/
def history (codec : Codec) : Intake → List IntakeStep → List StoreStep
  | _, [] => []
  | i, op :: rest => i.given op ++ (i.act codec op).history codec rest

variable {codec : Codec}

theorem apply_tally (i : Intake) (u : Update) :
    i.apply codec u =
      { i with
        store := i.store.absorb codec u
        tally := { i.tally with
          applied := i.tally.applied + (if u.decodes codec then 1 else 0)
          failures := i.tally.failures + (if u.decodes codec then 0 else 1) } } := by
  unfold apply Update.decodes Store.absorb Store.apply
  cases u.writes codec <;> rfl

theorem run_takes (codec : Codec) (taken left : List Update) (i : Intake)
    (hchannel : i.channel = taken ++ left) :
    i.run codec (List.replicate taken.length .take) =
        taken.foldl (apply codec) { i with channel := left } ∧
      i.history codec (List.replicate taken.length .take) = taken.map .update := by
  induction taken generalizing i with
  | nil =>
    obtain rfl : i.channel = left := hchannel
    exact ⟨rfl, rfl⟩
  | cons u rest ih =>
    have htake : i.takeOne codec = { i with channel := rest ++ left }.apply codec u := by
      simp [takeOne, hchannel]
    have hnext : (i.takeOne codec).channel = rest ++ left := by
      simp [htake, apply_tally]
    obtain ⟨hrun, hhistory⟩ := ih (i.takeOne codec) hnext
    have hleft : { i.takeOne codec with channel := left } =
        { i with channel := left }.apply codec u := by
      simp [htake, apply_tally]
    refine ⟨?_, ?_⟩
    · rw [hleft] at hrun
      exact hrun
    · have hgiven : i.given .take = [.update u] := by simp [given, hchannel]
      rw [List.length_cons, List.replicate_succ, history, hgiven]
      exact congrArg (StoreStep.update u :: ·) hhistory

/-- A drain takes one update after the other; all it does besides is to count a cut. -/
theorem drain_eq_takes (codec : Codec) (i : Intake) (deadline : Nat) (clock : Nat → Nat) :
    ∃ count cuts, i.given (.drain deadline clock) =
        i.history codec (List.replicate count .take) ∧
      i.drain codec deadline clock =
        { i.run codec (List.replicate count .take) with
          tally := { (i.run codec (List.replicate count .take)).tally with
            holdTimeouts := cuts } } := by
  have hchannel := (drainUntil_append deadline clock i.channel).symm
  obtain ⟨hrun, hhistory⟩ := run_takes codec _ _ i hchannel
  refine ⟨(drainUntil deadline clock i.channel).taken.length, ?_⟩
  rw [hhistory, hrun, drain]
  simp only
  split
  · exact ⟨_, rfl, rfl⟩
  · exact ⟨_, rfl, rfl⟩

/-- Whether the books of an intake are right, for what the polls have returned and what the store
has been given. -/
structure Balanced (codec : Codec) (returned : List (List Update)) (given : List StoreStep)
    (i : Intake) : Prop where
  handed : updates given ++ i.onTheWay = returned.flatten
  fits : i.channel.length ≤ i.capacity
  replayed : i.store = Store.empty.run codec given
  applied : i.tally.applied = (updates given).countP (·.decodes codec)
  failures : i.tally.failures = (updates given).countP (!·.decodes codec)
  expired : i.tally.expired = Store.empty.expired codec given

namespace Balanced

variable {returned : List (List Update)} {past : List StoreStep} {i : Intake}

theorem fresh (codec : Codec) (capacity : Nat) :
    Balanced codec [] [] { capacity := capacity } where
  handed := rfl
  fits := Nat.zero_le _
  replayed := rfl
  applied := rfl
  failures := rfl
  expired := rfl

theorem deliver (h : Balanced codec returned past i) (batch : List Update) :
    Balanced codec (returned ++ [batch]) past (i.deliver batch) := by
  have hhanded : updates past ++ (i.deliver batch).onTheWay = (returned ++ [batch]).flatten := by
    rw [onTheWay_deliver, ← List.append_assoc, h.handed]
    simp
  by_cases hnone : batch = []
  · rw [Intake.deliver, if_pos hnone] at hhanded ⊢
    exact { h with handed := hhanded }
  · rw [Intake.deliver, if_neg hnone] at hhanded ⊢
    exact { h with handed := hhanded }

theorem push (h : Balanced codec returned past i) : Balanced codec returned past i.push := by
  have hhanded : updates past ++ i.push.onTheWay = returned.flatten := by
    rw [onTheWay_push]
    exact h.handed
  cases hpending : i.pending with
  | nil =>
    rw [Intake.push, hpending]
    exact h
  | cons u rest =>
    by_cases hroom : i.channel.length < i.capacity
    · simp only [Intake.push, hpending, if_pos hroom] at hhanded ⊢
      refine { h with handed := hhanded, fits := ?_ }
      rw [List.length_append, List.length_singleton]
      exact hroom
    · simp only [Intake.push, hpending, if_neg hroom]
      exact h

theorem takeOne (h : Balanced codec returned past i) :
    Balanced codec returned (past ++ i.given .take) (i.takeOne codec) := by
  unfold Intake.takeOne given
  cases hchannel : i.channel with
  | nil => simpa [hchannel] using h
  | cons u rest =>
    have hgiven : ((u :: rest).take 1).map StoreStep.update = [.update u] := rfl
    have hupdates : updates (past ++ [.update u]) = updates past ++ [u] := by
      rw [updates_append]
      rfl
    simp only [hgiven, apply_tally]
    refine ⟨?_, ?_, ?_, ?_, ?_, ?_⟩
    · rw [hupdates, ← h.handed]
      simp [onTheWay, hchannel]
    · have hfits := h.fits
      rw [hchannel] at hfits
      exact Nat.le_of_succ_le hfits
    · rw [h.replayed, Store.run_append]
      rfl
    · rw [h.applied, hupdates, List.countP_append, List.countP_singleton]
    · rw [h.failures, hupdates, List.countP_append, List.countP_singleton]
      cases u.decodes codec <;> rfl
    · rw [h.expired, Store.expired_append]
      rfl

theorem sweep (h : Balanced codec returned past i) (rule : SweepRule) :
    Balanced codec returned (past ++ [.sweep rule]) (i.sweep rule) := by
  have hupdates : updates (past ++ [.sweep rule]) = updates past := by
    rw [updates_append]
    exact List.append_nil _
  refine ⟨?_, h.fits, ?_, ?_, ?_, ?_⟩
  · rw [hupdates]
    exact h.handed
  · rw [Intake.sweep, h.replayed, Store.run_append]
    rfl
  · rw [hupdates]
    exact h.applied
  · rw [hupdates]
    exact h.failures
  · calc (i.sweep rule).tally.expired
      _ = i.tally.expired + (i.store.sweepReport rule).total := rfl
      _ = Store.empty.expired codec past + ((Store.empty.run codec past).sweepReport rule).total := by
        rw [h.expired, h.replayed]
      _ = Store.empty.expired codec (past ++ [.sweep rule]) := by
        rw [Store.expired_append, Store.expired, Store.expired, Nat.add_zero]

theorem takes (h : Balanced codec returned past i) (count : Nat) :
    Balanced codec returned (past ++ i.history codec (List.replicate count .take))
      (i.run codec (List.replicate count .take)) := by
  induction count generalizing past i with
  | zero =>
    rw [List.replicate_zero, history, List.append_nil]
    exact h
  | succ count ih =>
    rw [List.replicate_succ, history, ← List.append_assoc]
    exact ih h.takeOne

theorem act (h : Balanced codec returned past i) (op : IntakeStep) :
    Balanced codec (returned ++ IntakeStep.batches [op]) (past ++ i.given op) (i.act codec op) := by
  cases op with
  | poll batch =>
    rw [given, List.append_nil]
    exact h.deliver batch
  | push =>
    rw [given, List.append_nil, IntakeStep.batches_of_not_poll (by rintro _ ⟨⟩), List.append_nil]
    exact h.push
  | take =>
    rw [IntakeStep.batches_of_not_poll (by rintro _ ⟨⟩), List.append_nil]
    exact h.takeOne
  | drain deadline clock =>
    obtain ⟨count, cuts, hgiven, hdrain⟩ := i.drain_eq_takes codec deadline clock
    have htakes := h.takes count
    rw [IntakeStep.batches_of_not_poll (by rintro _ ⟨⟩), List.append_nil, hgiven, Intake.act,
      hdrain]
    exact { htakes with handed := htakes.handed }
  | sweep rule =>
    rw [IntakeStep.batches_of_not_poll (by rintro _ ⟨⟩), List.append_nil]
    exact h.sweep rule

theorem run (h : Balanced codec returned past i) (steps : List IntakeStep) :
    Balanced codec (returned ++ IntakeStep.batches steps) (past ++ i.history codec steps)
      (i.run codec steps) := by
  induction steps generalizing returned past i with
  | nil =>
    rw [history, List.append_nil, IntakeStep.batches, List.filterMap_nil, List.append_nil]
    exact h
  | cons op rest ih =>
    rw [IntakeStep.batches_cons, history, ← List.append_assoc, ← List.append_assoc]
    exact ih (h.act op)

end Balanced

theorem capacity_act (i : Intake) (op : IntakeStep) : (i.act codec op).capacity = i.capacity := by
  cases op with
  | poll batch =>
    rw [act, deliver]
    split <;> rfl
  | push =>
    rw [act, push]
    split
    · split <;> rfl
    · rfl
  | take =>
    rw [act, takeOne]
    split
    · rfl
    · rw [apply_tally]
  | drain deadline clock =>
    obtain ⟨tally, -, hdrain⟩ := i.drain_eq codec deadline clock
    rw [act, hdrain]
  | sweep rule => rfl

theorem capacity_run (i : Intake) (steps : List IntakeStep) :
    (i.run codec steps).capacity = i.capacity := by
  induction steps generalizing i with
  | nil => rfl
  | cons op rest ih => exact (ih (i.act codec op)).trans (capacity_act i op)

/-- Of the steps it is the sweeps, and no others, that sweep the store. -/
theorem sweeps_history (i : Intake) (steps : List IntakeStep) :
    sweeps (i.history codec steps) = IntakeStep.sweeps steps := by
  induction steps generalizing i with
  | nil => rfl
  | cons op rest ih =>
    have hgiven : sweeps (i.given op) = IntakeStep.sweeps [op] := by
      cases op with
      | poll | push | sweep => rfl
      | take | drain => exact sweeps_map_update _
    calc sweeps (i.given op ++ (i.act codec op).history codec rest)
      _ = IntakeStep.sweeps [op] ++ IntakeStep.sweeps rest := by rw [sweeps_append, hgiven, ih]
      _ = IntakeStep.sweeps (op :: rest) := (List.filterMap_append (l := [op])).symm

/-- Whatever turns the tasks take, each update that a poll has returned is applied once, in the
order of the polls, or still on its way; and the tallies count what has been applied. -/
theorem nothing_lost (codec : Codec) (capacity : Nat) (steps : List IntakeStep) :
    let i := ({ capacity := capacity } : Intake).run codec steps
    let past := ({ capacity := capacity } : Intake).history codec steps
    updates past ++ i.channel ++ i.pending = (IntakeStep.batches steps).flatten ∧
      i.channel.length ≤ capacity ∧
      sweeps past = IntakeStep.sweeps steps ∧
      i.store = Store.empty.run codec past ∧
      i.store = Store.empty.run codec (past.filter (·.decodes codec)) ∧
      i.tally.applied = (updates past).countP (·.decodes codec) ∧
      i.tally.applied + i.tally.failures = (updates past).length ∧
      i.tally.expired = Store.empty.expired codec past := by
  intro i past
  have hbalanced : Balanced codec (IntakeStep.batches steps) past i :=
    (Balanced.fresh codec capacity).run steps
  have hcapacity : i.capacity = capacity := capacity_run _ steps
  refine ⟨?_, ?_, sweeps_history _ steps, hbalanced.replayed, ?_, hbalanced.applied, ?_,
    hbalanced.expired⟩
  · rw [List.append_assoc]
    exact hbalanced.handed
  · rw [← hcapacity]
    exact hbalanced.fits
  · rw [Store.run_filter_decodes]
    exact hbalanced.replayed
  · rw [hbalanced.applied, hbalanced.failures]
    have hcount := List.length_eq_countP_add_countP (·.decodes codec) (l := updates past)
    simpa using hcount.symm

/-- Through a channel that holds one update: the first gets to the store, the second is passed over
because nothing can be decoded from it, and the third is still in the channel. -/
example :
    let i := ({ capacity := 1 } : Intake).run .json
      [.poll [.deactivate "a", .assign "b" "", .activate "a"], .push, .push, .take, .push,
        .drain 5 fun _ ↦ 0, .push]
    i.store.inactiveKeys = ["a"] ∧ i.channel = [.activate "a"] ∧ i.pending = [] ∧
      i.tally.applied = 1 ∧ i.tally.failures = 1 := by
  decide +kernel

end Intake

end TicketPool

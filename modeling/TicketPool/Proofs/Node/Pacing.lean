import TicketPool.Node.Poller
import TicketPool.Proofs.Intake.Draining

/-!
# How often a poller polls

A poll starts when the poller rests and the interval from the start of the last poll is over, and
the poller rests only when all that the last poll has read is in the channel.  So however long
polls take, whatever they return and however slowly the channel is emptied, two polls start at
least the interval apart.  A poller that has ended starts none.
-/

namespace TicketPool

section Windows

variable {gap least most : Nat} {times : List Nat}

theorem length_mul_le (hapart : times.Pairwise fun earlier later ↦ earlier + gap ≤ later)
    (hwithin : ∀ time ∈ times, least ≤ time ∧ time ≤ most) :
    times.length * gap ≤ most + gap - least := by
  induction times generalizing least with
  | nil => simp
  | cons first rest ih =>
    obtain ⟨hfirst, hrest⟩ := List.pairwise_cons.mp hapart
    obtain ⟨hleast, hmost⟩ := hwithin first List.mem_cons_self
    have hlater : rest.length * gap ≤ most + gap - (first + gap) :=
      ih hrest fun time htime ↦ ⟨hfirst time htime, (hwithin time (List.mem_cons_of_mem _ htime)).2⟩
    rw [List.length_cons, Nat.add_one_mul]
    omega

theorem countP_window_le (hapart : times.Pairwise fun earlier later ↦ earlier + gap ≤ later)
    (hgap : 0 < gap) (least span : Nat) :
    times.countP (fun time ↦ least ≤ time ∧ time ≤ least + span) ≤ span / gap + 1 := by
  have hcount := length_mul_le (hapart.filter fun time ↦ least ≤ time ∧ time ≤ least + span)
    fun time htime ↦ of_decide_eq_true (List.mem_filter.mp htime).2
  rw [← List.countP_eq_length_filter] at hcount
  rw [← Nat.add_div_right span hgap, Nat.le_div_iff_mul_le hgap]
  omega

end Windows

inductive PollStage where
  | resting
  | polling
  | forwarding
  | ended
deriving DecidableEq

namespace PollPhase

def stage : PollPhase → PollStage
  | resting _ => .resting
  | reading _ _ | expecting _ _ _ => .polling
  | forwarding _ => .forwarding
  | ended _ => .ended

/-- The time before which the next poll must not start. -/
def next : PollPhase → Nat
  | resting next | reading next _ | expecting next _ _ | forwarding next | ended next => next

theorem next_reading (next : Nat) (reader : Reader) : (reading next reader).next = next := rfl

theorem next_expecting (next due : Nat) (updates : List Update) :
    (expecting next due updates).next = next := rfl

theorem next_ended (next : Nat) : (ended next).next = next := rfl

end PollPhase

/-- A step of the poller, or another one that the intake takes. -/
inductive PollerStep where
  | start (feed : Feed)
  | finish (feed : Feed)
  | rest
  /-- The task that takes from the channel ends. -/
  | orphan
  | move (op : IntakeStep) (hop : ∀ batch, op ≠ .poll batch)

namespace Intake

variable {codec : Codec} {i : Intake} {op : IntakeStep}

/-- Only polls add to what is pending, and only they are counted as empty. -/
theorem act_of_not_poll (i : Intake) (hop : ∀ batch, op ≠ .poll batch) :
    (i.act codec op).pending <:+ i.pending ∧
      (i.act codec op).tally.emptyPolls = i.tally.emptyPolls := by
  cases op with
  | poll batch => exact absurd rfl (hop batch)
  | push =>
    rw [act, push]
    split
    · rename_i u later hpending
      split
      · rw [hpending]
        exact ⟨List.suffix_cons u later, rfl⟩
      · exact ⟨List.suffix_refl _, rfl⟩
    · exact ⟨List.suffix_refl _, rfl⟩
  | take =>
    rw [act, takeOne]
    split
    · exact ⟨List.suffix_refl _, rfl⟩
    · rw [apply_tally]
      exact ⟨List.suffix_refl _, rfl⟩
  | drain deadline clock =>
    rw [act, drain_eq_take]
    exact ⟨List.suffix_refl _, rfl⟩
  | sweep rule => exact ⟨List.suffix_refl _, rfl⟩

theorem pending_act_of_nil (h : i.pending = []) (hop : ∀ batch, op ≠ .poll batch) :
    (i.act codec op).pending = [] :=
  List.eq_nil_of_suffix_nil (h ▸ (act_of_not_poll i hop).1)

theorem emptyPolls_act (i : Intake) (op : IntakeStep) :
    (i.act codec op).tally.emptyPolls =
      i.tally.emptyPolls + (IntakeStep.batches [op]).countP List.isEmpty := by
  cases op with
  | poll batch => cases batch <;> rfl
  | push | take | drain | sweep => exact (act_of_not_poll i (by rintro _ ⟨⟩)).2

theorem emptyPolls_run (i : Intake) (steps : List IntakeStep) :
    (i.run codec steps).tally.emptyPolls =
      i.tally.emptyPolls + (IntakeStep.batches steps).countP List.isEmpty := by
  induction steps generalizing i with
  | nil => rfl
  | cons op rest ih =>
    rw [IntakeStep.batches_cons, List.countP_append, ← Nat.add_assoc, ← emptyPolls_act]
    exact ih (i.act codec op)

end Intake

namespace Poller

variable {codec : Codec} {p : Poller}

/-- When polls started, in nanoseconds. -/
def starts (p : Poller) : List Nat :=
  p.startedAt.map (· * 1000000)

/-- What the poll that is under way has read, if it is done. -/
def outcome? (now : Nat) (feed : Feed) (p : Poller) : Option (List Update) :=
  match p.phase, feed with
  | .reading _ reader, .log server =>
    match (reader.wake server now).expire now with
    | .done _ result => some (Replica.receive p.cursor result).1
    | .waiting _ _ _ _ _ => none
  | .expecting _ due updates, _ => if due ≤ now then some updates else none
  | _, _ => none

/-- What a poller does that has handed over what it can: it rests if that is all of it, and ends if
nobody will take the others. -/
def rest (p : Poller) : Poller :=
  match p.phase with
  | .forwarding next =>
    if p.intake.pending = [] then { p with phase := .resting next }
    else if p.orphaned then { p with phase := .ended next }
    else p
  | _ => p

def act (codec : Codec) (now : Nat) (p : Poller) : PollerStep → Poller
  | .start feed =>
    match p.phase with
    | .resting next => if now < next then p else p.start now feed
    | _ => p
  | .finish feed => p.finish now feed
  | .rest => p.rest
  | .orphan => p.orphan
  | .move op _ => { p with intake := p.intake.act codec op }

/-- What a step does to the intake. -/
def moved (now : Nat) (p : Poller) : PollerStep → List IntakeStep
  | .start _ | .rest | .orphan => []
  | .finish feed => (p.outcome? now feed).toList.map .poll
  | .move op _ => [op]

/-- Steps at their times. -/
def acts (codec : Codec) (p : Poller) (steps : List (Nat × PollerStep)) : Poller :=
  steps.foldl (fun p (now, step) ↦ p.act codec now step) p

def moves (codec : Codec) : Poller → List (Nat × PollerStep) → List IntakeStep
  | _, [] => []
  | p, (now, step) :: later => p.moved now step ++ (p.act codec now step).moves codec later

theorem acts_append (p : Poller) (first second : List (Nat × PollerStep)) :
    p.acts codec (first ++ second) = (p.acts codec first).acts codec second :=
  List.foldl_append

/-- A poll starts unless the clock cannot show the end of the interval. -/
theorem start_cases (now : Nat) (feed : Feed) (p : Poller) :
    (∃ phase : PollPhase, phase.stage = .polling ∧ phase.next = now + p.wait.timer ∧
      p.start now feed = { p with phase, startedAt := p.startedAt ++ [now] }) ∨
    p.start now feed = { p with phase := .ended (now + p.wait.timer) } := by
  cases hend : p.wait.deadline? (1000000 * now) with
  | none =>
    right
    simp only [start, hend]
  | some deadline =>
    left
    simp only [start, hend]
    cases feed with
    | log server =>
      simp only [Reader.start, hend]
      exact ⟨_, rfl, PollPhase.next_reading _ _, rfl⟩
    | playlist polls =>
      simp only
      cases polls[p.startedAt.length]? with
      | none => exact ⟨_, rfl, PollPhase.next_expecting _ _ _, rfl⟩
      | some poll => exact ⟨_, rfl, PollPhase.next_expecting _ _ _, rfl⟩

/-- A step that starts a poll, or does nothing. -/
theorem act_start_cases (codec : Codec) (now : Nat) (feed : Feed) (p : Poller) :
    p.act codec now (.start feed) = p ∨
      p.phase.stage = .resting ∧ p.phase.next ≤ now ∧
        p.act codec now (.start feed) = p.start now feed := by
  unfold act
  cases hphase : p.phase with
  | resting next =>
    by_cases hearly : now < next
    · exact .inl (if_pos hearly)
    · exact .inr ⟨rfl, Nat.not_lt.mp hearly, if_neg hearly⟩
  | reading | expecting | forwarding | ended => exact .inl rfl

theorem finish_cases (now : Nat) (feed : Feed) (p : Poller) :
    (∃ updates cursor, p.outcome? now feed = some updates ∧ p.phase.stage = .polling ∧
      p.finish now feed = { p with
        cursor
        phase := .forwarding p.phase.next
        intake := p.intake.deliver updates }) ∨
    ∃ phase : PollPhase, p.outcome? now feed = none ∧ phase.stage = p.phase.stage ∧
      phase.next = p.phase.next ∧ p.finish now feed = { p with phase } := by
  obtain ⟨wait, count, cursor, phase, intake, orphaned, startedAt⟩ := p
  cases phase with
  | resting next => exact .inr ⟨.resting next, rfl, rfl, rfl, rfl⟩
  | forwarding next => exact .inr ⟨.forwarding next, rfl, rfl, rfl, rfl⟩
  | ended next => exact .inr ⟨.ended next, rfl, rfl, rfl, rfl⟩
  | expecting next due updates =>
    by_cases hdue : due ≤ now
    · exact .inl ⟨updates, cursor, if_pos hdue, rfl, if_pos hdue⟩
    · exact .inr ⟨.expecting next due updates, if_neg hdue, rfl, rfl, if_neg hdue⟩
  | reading next reader =>
    cases feed with
    | playlist polls => exact .inr ⟨.reading next reader, rfl, rfl, rfl, rfl⟩
    | log server =>
      simp only [finish, outcome?]
      cases (reader.wake server now).expire now with
      | done time result =>
        exact .inl ⟨_, (Replica.receive cursor result).2, rfl, rfl, rfl⟩
      | waiting after most deadline result seen =>
        exact .inr ⟨.reading next (.waiting after most deadline result seen), rfl, rfl, rfl, rfl⟩

theorem rest_cases (p : Poller) :
    p.rest = p ∨
      (p.intake.pending = [] ∧ p.phase.stage = .forwarding ∧
        p.rest = { p with phase := .resting p.phase.next }) ∨
      p.phase.stage = .forwarding ∧ p.rest = { p with phase := .ended p.phase.next } := by
  unfold rest
  cases hphase : p.phase with
  | forwarding next =>
    simp only
    split_ifs with hpending horphaned
    · exact .inr (.inl ⟨hpending, rfl, rfl⟩)
    · exact .inr (.inr ⟨rfl, rfl⟩)
    · exact .inl rfl
  | resting | reading | expecting | ended => exact .inl rfl

/-- Forwarding is a number of pushes, then a rest if they were enough; a poller whose channel nobody
empties does not push. -/
theorem forward_cases (p : Poller) :
    p.forward = p ∨ p.forward = p.rest ∨
      p.forward = { p with intake := p.intake.forward }.rest := by
  obtain ⟨wait, count, cursor, phase, intake, orphaned, startedAt⟩ := p
  cases phase with
  | forwarding next =>
    by_cases hstranded : orphaned = true ∧ intake.pending ≠ []
    · refine .inr (.inl ?_)
      simp only [forward, rest, if_pos hstranded, if_neg hstranded.2, if_pos hstranded.1]
    · refine .inr (.inr ?_)
      simp only [forward, rest, if_neg hstranded]
      by_cases hnone : intake.forward.pending = []
      · simp only [if_pos hnone]
      · -- With nothing to push there would be nothing left after the pushes.
        have htaken : orphaned ≠ true := by
          rintro rfl
          have hnil : intake.pending = [] := by_contra fun hsome ↦ hstranded ⟨rfl, hsome⟩
          exact hnone (by rwa [Intake.forward, hnil])
        simp only [if_neg hnone, if_neg htaken]
  | resting | reading | expecting | ended => exact .inl rfl

theorem intake_act (now : Nat) (p : Poller) (step : PollerStep) :
    (p.act codec now step).intake = p.intake.run codec (p.moved now step) := by
  cases step with
  | start feed =>
    obtain hnone | ⟨-, -, hstart⟩ := act_start_cases codec now feed p
    · rw [hnone]
      rfl
    · rw [hstart]
      obtain ⟨phase, -, -, hphase⟩ | hphase := start_cases now feed p <;> rw [hphase] <;> rfl
  | finish feed =>
    rw [act, moved]
    obtain ⟨updates, cursor, hsome, -, hfinish⟩ | ⟨phase, hnone, -, -, hfinish⟩ :=
      finish_cases now feed p
    · rw [hfinish, hsome]
      rfl
    · rw [hfinish, hnone]
      rfl
  | rest =>
    rw [act]
    obtain hrest | ⟨-, -, hrest⟩ | ⟨-, hrest⟩ := rest_cases p <;> rw [hrest] <;> rfl
  | orphan => rfl
  | move op => rfl

theorem intake_acts (p : Poller) (steps : List (Nat × PollerStep)) :
    (p.acts codec steps).intake = p.intake.run codec (p.moves codec steps) := by
  induction steps generalizing p with
  | nil => rfl
  | cons timed later ih =>
    obtain ⟨now, step⟩ := timed
    have hrun : p.intake.run codec (p.moves codec ((now, step) :: later)) =
        (p.intake.run codec (p.moved now step)).run codec
          ((p.act codec now step).moves codec later) :=
      List.foldl_append
    rw [hrun, ← intake_act]
    exact ih (p.act codec now step)

theorem wait_act (now : Nat) (p : Poller) (step : PollerStep) :
    (p.act codec now step).wait = p.wait := by
  cases step with
  | start feed =>
    obtain hnone | ⟨-, -, hstart⟩ := act_start_cases codec now feed p
    · rw [hnone]
    · obtain ⟨_, -, -, hphase⟩ | hphase := start_cases now feed p <;> rw [hstart, hphase]
  | finish feed =>
    obtain ⟨_, _, -, -, hfinish⟩ | ⟨_, -, -, -, hfinish⟩ := finish_cases now feed p <;>
      rw [act, hfinish]
  | rest =>
    obtain hrest | ⟨-, -, hrest⟩ | ⟨-, hrest⟩ := rest_cases p <;> rw [act, hrest]
  | orphan => rfl
  | move op => rfl

theorem wait_acts (p : Poller) (steps : List (Nat × PollerStep)) :
    (p.acts codec steps).wait = p.wait := by
  induction steps generalizing p with
  | nil => rfl
  | cons timed later ih => exact (ih _).trans (wait_act timed.1 p timed.2)

/-- What holds of a poller at any time, if the polls that are over have returned `returned`. -/
structure Paced (returned : List (List Update)) (p : Poller) : Prop where
  apart : p.startedAt.Pairwise fun earlier later ↦ earlier + p.wait.timer ≤ later
  next : ∀ time ∈ p.startedAt, time + p.wait.timer ≤ p.phase.next
  handed : p.phase.stage = .resting ∨ p.phase.stage = .polling → p.intake.pending = []
  answered : returned.length + (if p.phase.stage = .polling then 1 else 0) = p.startedAt.length

namespace Paced

variable {returned : List (List Update)}

theorem fresh (hstarted : p.startedAt = []) (hresting : p.phase.stage = .resting)
    (hpending : p.intake.pending = []) : Paced [] p where
  apart := by simp [hstarted]
  next := by simp [hstarted]
  handed _ := hpending
  answered := by simp [hstarted, hresting]

theorem start (h : Paced returned p) (hresting : p.phase.stage = .resting) {now : Nat}
    (hdue : p.phase.next ≤ now) (feed : Feed) : Paced returned (p.start now feed) := by
  have hpast : ∀ time ∈ p.startedAt, time + p.wait.timer ≤ now :=
    fun time htime ↦ Nat.le_trans (h.next time htime) hdue
  have hanswered := h.answered
  simp only [hresting, reduceCtorEq, if_false, Nat.add_zero] at hanswered
  obtain ⟨phase, hpolling, hnext, hstart⟩ | hstart := start_cases now feed p
  · rw [hstart]
    refine ⟨?_, ?_, fun _ ↦ h.handed (.inl hresting), ?_⟩
    · refine List.pairwise_append.mpr
        ⟨h.apart, List.pairwise_singleton _ _, fun time htime t ht ↦ ?_⟩
      rw [List.mem_singleton.mp ht]
      exact hpast time htime
    · intro time htime
      rw [hnext]
      rcases List.mem_append.mp htime with hearlier | hnow
      · exact Nat.le_trans (hpast time hearlier) (Nat.le_add_right _ _)
      · obtain rfl := List.mem_singleton.mp hnow
        exact Nat.le_refl _
    · simp [hpolling, hanswered]
  · rw [hstart]
    refine ⟨h.apart, fun time htime ↦ ?_, fun _ ↦ h.handed (.inl hresting), hanswered⟩
    rw [PollPhase.next_ended]
    exact Nat.le_trans (hpast time htime) (Nat.le_add_right _ _)

theorem finish (h : Paced returned p) (now : Nat) (feed : Feed) :
    Paced (returned ++ (p.outcome? now feed).toList) (p.finish now feed) := by
  obtain ⟨updates, cursor, hsome, hpolling, hfinish⟩ | ⟨phase, hnone, hstage, hnext, hfinish⟩ :=
    finish_cases now feed p
  · have hanswered := h.answered
    rw [if_pos hpolling] at hanswered
    rw [hfinish, hsome]
    refine ⟨h.apart, h.next, fun hearly ↦ absurd hearly (by simp [PollPhase.stage]), ?_⟩
    rw [List.length_append]
    exact hanswered
  · rw [hfinish, hnone, Option.toList_none, List.append_nil]
    refine ⟨h.apart, ?_, ?_, ?_⟩
    · rw [hnext]
      exact h.next
    · rw [hstage]
      exact h.handed
    · rw [hstage]
      exact h.answered

theorem rest (h : Paced returned p) : Paced returned p.rest := by
  obtain hrest | ⟨hpending, hforwarding, hrest⟩ | ⟨hforwarding, hrest⟩ := rest_cases p
  · rwa [hrest]
  · have hanswered := h.answered
    rw [hforwarding] at hanswered
    rw [hrest]
    exact ⟨h.apart, h.next, fun _ ↦ hpending, hanswered⟩
  · have hanswered := h.answered
    rw [hforwarding] at hanswered
    rw [hrest]
    exact ⟨h.apart, h.next, fun hearly ↦ absurd hearly (by simp [PollPhase.stage]), hanswered⟩

theorem act (h : Paced returned p) (codec : Codec) (now : Nat) (step : PollerStep) :
    Paced (returned ++ IntakeStep.batches (p.moved now step)) (p.act codec now step) := by
  cases step with
  | start feed =>
    have hsame : returned ++ IntakeStep.batches (p.moved now (.start feed)) = returned :=
      List.append_nil _
    rw [hsame]
    obtain hnone | ⟨hresting, hdue, hstart⟩ := act_start_cases codec now feed p
    · rwa [hnone]
    · rw [hstart]
      exact h.start hresting hdue feed
  | finish feed =>
    have hbatches : IntakeStep.batches (p.moved now (.finish feed)) =
        (p.outcome? now feed).toList := by
      rw [moved]
      cases p.outcome? now feed <;> rfl
    rw [hbatches]
    exact h.finish now feed
  | rest =>
    have hsame : returned ++ IntakeStep.batches (p.moved now .rest) = returned :=
      List.append_nil _
    rw [hsame]
    exact h.rest
  | orphan =>
    have hsame : returned ++ IntakeStep.batches (p.moved now .orphan) = returned :=
      List.append_nil _
    rw [hsame]
    exact { h with }
  | move op hop =>
    rw [moved, IntakeStep.batches_of_not_poll hop, List.append_nil]
    exact { h with handed := fun hstage ↦ Intake.pending_act_of_nil (h.handed hstage) hop }

theorem acts (h : Paced returned p) (codec : Codec) (steps : List (Nat × PollerStep)) :
    Paced (returned ++ IntakeStep.batches (p.moves codec steps)) (p.acts codec steps) := by
  induction steps generalizing returned p with
  | nil =>
    rw [moves, IntakeStep.batches, List.filterMap_nil, List.append_nil]
    exact h
  | cons timed later ih =>
    obtain ⟨now, step⟩ := timed
    have hbatches : IntakeStep.batches (p.moves codec ((now, step) :: later)) =
        IntakeStep.batches (p.moved now step) ++
          IntakeStep.batches ((p.act codec now step).moves codec later) :=
      List.filterMap_append
    rw [hbatches, ← List.append_assoc]
    exact ih (h.act codec now step)

/-- A timer is no shorter than its span. -/
theorem starts_apart (h : Paced returned p) :
    p.starts.Pairwise fun earlier later ↦ earlier + p.wait.length ≤ later := by
  rw [starts, List.pairwise_map]
  refine h.apart.imp fun {earlier later} hapart ↦ ?_
  calc earlier * 1000000 + p.wait.length
    _ ≤ earlier * 1000000 + p.wait.timer * 1000000 :=
      Nat.add_le_add_left p.wait.length_le_timer _
    _ = (earlier + p.wait.timer) * 1000000 := (Nat.add_mul _ _ _).symm
    _ ≤ later * 1000000 := Nat.mul_le_mul_right _ hapart

theorem count_window_le (h : Paced returned p) (hwait : 0 < p.wait.length) (least span : Nat) :
    p.starts.countP (fun time ↦ least ≤ time ∧ time ≤ least + span) ≤ span / p.wait.length + 1 :=
  countP_window_le h.starts_apart hwait least span

end Paced

/-- Steps at one time lead from the one poller to the other. -/
def Reaches (codec : Codec) (now : Nat) (p q : Poller) : Prop :=
  ∃ more : List PollerStep, q = p.acts codec (more.map (now, ·))

namespace Reaches

variable {now : Nat} {q r : Poller}

theorem refl (codec : Codec) (now : Nat) (p : Poller) : Reaches codec now p p :=
  ⟨[], rfl⟩

theorem step (codec : Codec) (now : Nat) (p : Poller) (step : PollerStep) :
    Reaches codec now p (p.act codec now step) :=
  ⟨[step], rfl⟩

theorem trans (h : Reaches codec now p q) (hnext : Reaches codec now q r) :
    Reaches codec now p r := by
  obtain ⟨first, rfl⟩ := h
  obtain ⟨second, rfl⟩ := hnext
  refine ⟨first ++ second, ?_⟩
  rw [List.map_append, acts_append]

theorem forward (codec : Codec) (now : Nat) (p : Poller) : Reaches codec now p p.forward := by
  have hpushes (updates : List Update) (p : Poller) :
      Reaches codec now p { p with intake := updates.foldl (fun i _ ↦ i.push) p.intake } := by
    induction updates generalizing p with
    | nil => exact refl codec now p
    | cons u later ih =>
      exact (step codec now p (.move .push (by rintro _ ⟨⟩))).trans (ih _)
  obtain hsame | hrest | hrest := forward_cases p
  · rw [hsame]
    exact refl codec now p
  · rw [hrest]
    exact step codec now p .rest
  · rw [hrest]
    exact (hpushes p.intake.pending p).trans (step codec now _ .rest)

theorem resume (codec : Codec) (now : Nat) (feed : Feed) (p : Poller) :
    Reaches codec now p (p.resume now feed) :=
  (step codec now p (.finish feed)).trans (forward codec now _)

/-- What a poller does at a time are such steps. -/
theorem run (codec : Codec) (now : Nat) (feed : Feed) (p : Poller) :
    Reaches codec now p (p.run now feed) := by
  have hresume := resume codec now feed p
  unfold Poller.run
  simp only
  split
  · rename_i next hphase
    split
    · exact hresume
    · rename_i hdue
      have hstart : (p.resume now feed).act codec now (.start feed) =
          (p.resume now feed).start now feed := by
        simp only [act, hphase, if_neg hdue]
      have hstarted := step codec now (p.resume now feed) (.start feed)
      rw [hstart] at hstarted
      exact hresume.trans (hstarted.trans (resume codec now feed _))
  · exact hresume

end Reaches

/-- Whatever polls return and however long they take, and whatever is done to the channel and the
store meanwhile, at any time: two polls start at least the interval apart, so no more of them start
within a span than it has room for intervals, and one; a poll starts only when the one before it is
over and all that polls have returned is in the channel or behind it; and the empty polls are
counted.  Starts are whole milliseconds, because timers end on whole milliseconds and a poll starts
when one has ended; an interval need not be a whole number of them, and a timer that runs for one is
never shorter (`Span.length_le_timer`). -/
theorem polls_paced (codec : Codec) (wait : Span) (count : Nat) (cursor : LogId)
    (first capacity : Nat) (steps : List (Nat × PollerStep)) :
    let fresh : Poller := { wait, count, cursor, phase := .resting first, intake := { capacity } }
    let p := fresh.acts codec steps
    let moves := fresh.moves codec steps
    let returned := IntakeStep.batches moves
    p.starts.Pairwise (fun earlier later ↦ earlier + wait.length ≤ later) ∧
      (0 < wait.length → ∀ least span,
        p.starts.countP (fun time ↦ least ≤ time ∧ time ≤ least + span) ≤
          span / wait.length + 1) ∧
      (∀ now feed, (p.act codec now (.start feed)).startedAt ≠ p.startedAt →
        returned.length = p.startedAt.length ∧ p.intake.pending = [] ∧
          StoreStep.updates (fresh.intake.history codec moves) ++ p.intake.channel =
            returned.flatten) ∧
      returned.length + (if p.phase.stage = .polling then 1 else 0) = p.startedAt.length ∧
      p.intake = fresh.intake.run codec moves ∧
      p.intake.tally.emptyPolls = returned.countP List.isEmpty ∧
      ∀ now feed, Reaches codec now p (p.run now feed) := by
  intro fresh p moves returned
  have hpaced : Paced returned p := (Paced.fresh rfl rfl rfl).acts codec steps
  have hbalanced : Intake.Balanced codec returned (fresh.intake.history codec moves)
      (fresh.intake.run codec moves) := (Intake.Balanced.fresh codec capacity).run moves
  have hintake : p.intake = fresh.intake.run codec moves := intake_acts fresh steps
  have hwait : p.wait = wait := wait_acts fresh steps
  refine ⟨?_, ?_, ?_, hpaced.answered, hintake, ?_, fun now feed ↦ .run codec now feed p⟩
  · rw [← hwait]
    exact hpaced.starts_apart
  · rw [← hwait]
    exact hpaced.count_window_le
  · intro now feed hstarts
    obtain hnone | ⟨hresting, -, -⟩ := act_start_cases codec now feed p
    · exact absurd (congrArg startedAt hnone) hstarts
    · have hpending : p.intake.pending = [] := hpaced.handed (.inl hresting)
      have hanswered := hpaced.answered
      have hhanded := hbalanced.handed
      rw [← hintake, Intake.onTheWay, hpending, List.append_nil] at hhanded
      rw [hresting] at hanswered
      exact ⟨hanswered, hpending, hhanded⟩
  · rw [hintake, Intake.emptyPolls_run]
    exact Nat.zero_add _

/-- The second update gets into the channel only when the first has been taken from it. -/
example :
    let feed := Feed.playlist [⟨30, [.activate "a", .activate "b"]⟩]
    let push := PollerStep.move .push (by rintro _ ⟨⟩)
    let take := PollerStep.move .take (by rintro _ ⟨⟩)
    let fresh : Poller :=
      { wait := .ofMillis 100, count := 2, cursor := ⟨0, 0⟩, phase := .resting 0,
        intake := { capacity := 1 } }
    (fresh.acts .json [(0, .start feed), (30, .finish feed), (30, push), (100, .rest),
      (100, .start feed), (250, take), (250, push), (250, .rest), (260, .start feed)]).startedAt =
        [0, 260] := by
  decide +kernel

end Poller

end TicketPool

import TicketPool.Node
import TicketPool.Proofs.Node.Pacing
import TicketPool.Proofs.Outgoing.Desk

/-!
# Nodes as tasks that take turns

What a running node does to its queue, its channel and its store it does by the steps of its
tasks.
-/

namespace TicketPool

namespace Sender

variable {s : Sender} {q : Outgoing} {now : Nat} (clocks : Clocks) (feed : Feed)

theorem commit_of_calm (now : Nat) (hcrash : s.mishap.crash = false)
    (hstuck : s.mishap.stuck = false) :
    ∃ responses, (s.commit clocks now feed).1 =
      { s with
        outgoing := s.outgoing.handOver.settle responses
        phase := s.phase.behindCycle
        sentAt := s.sentAt ++ [now] } := by
  unfold commit
  simp only [hcrash, hstuck, Bool.false_eq_true, if_false]
  exact ⟨_, rfl⟩

/-- Nothing is left that could be dropped once more. -/
theorem shut_breakOff (s : Sender) : s.breakOff.outgoing.shut = s.breakOff.outgoing := by
  simp [breakOff, Outgoing.shut]

theorem begin_of_ne_resting (h : s.phase ≠ .resting) : s.begin now = s := by
  rw [begin]
  split
  · exact absurd ‹_› h
  · rfl

theorem begin_of_some {cycleEnd : Nat} (hphase : s.phase = .resting)
    (hend : s.outgoing.cycleEnd? s.wait (1000000 * now) = some cycleEnd) :
    s.begin now = { s with phase := .gathering (now + s.wait.timer) } := by
  simp only [begin, hphase, hend]

theorem begin_of_none (hphase : s.phase = .resting)
    (hend : s.outgoing.cycleEnd? s.wait (1000000 * now) = none) : s.begin now = s.breakOff := by
  simp only [begin, hphase, hend]

theorem takeRequest_of_idle (h : (s.begin now).phase.takesRequests = false) :
    s.takeRequest clocks now feed = (s.begin now, feed) := by
  rw [takeRequest]
  exact if_neg (by simp [h])

theorem takeRequest_of_none (h : (s.begin now).outgoing.receive? = none) :
    s.takeRequest clocks now feed = (s.begin now, feed) := by
  simp only [takeRequest, h, ite_self]

theorem takeRequest_of_some (htakes : (s.begin now).phase.takesRequests = true)
    (h : (s.begin now).outgoing.receive? = some q) :
    s.takeRequest clocks now feed =
      if q.isFull then { s.begin now with outgoing := q }.commit clocks now feed
      else ({ s.begin now with outgoing := q }, feed) := by
  simp only [takeRequest, h, if_pos htakes]

theorem takeRequests_of_ended (hphase : s.phase = .ended) :
    s.takeRequests clocks now feed = (s, feed) := by
  have hbegin : s.begin now = s := begin_of_ne_resting (by simp [hphase])
  have htake : s.takeRequest clocks now feed = (s, feed) := by
    rw [takeRequest_of_idle, hbegin]
    rw [hbegin, hphase]
    rfl
  exact List.foldl_fixed' (fun _ ↦ htake) s.outgoing.queue

theorem flush_of_ended (hphase : s.phase = .ended) : s.flush clocks now feed = (s, feed) := by
  rw [flush, if_neg (by simp [hphase, SendPhase.takesRequests]), hphase]
  exact congrArg (({ s with phase := · }, feed)) hphase.symm

theorem close_of_ended (hphase : (s.begin now).phase = .ended)
    (hshut : (s.begin now).outgoing.shut = (s.begin now).outgoing) :
    s.close clocks now feed = (s.begin now, feed) := by
  have hclosed : { s.begin now with phase := (s.begin now).phase.close } = s.begin now := by
    rw [hphase]
    exact congrArg ({ s.begin now with phase := · }) hphase.symm
  simp only [close, flush_of_ended clocks feed hphase, hclosed,
    takeRequests_of_ended clocks feed hphase, breakOff, hshut, ← hphase]

end Sender

/-- The stage that a task is in while a sender is in a phase. -/
inductive DeskStage.Shows : DeskStage → SendPhase → Prop where
  | resting : Shows resting .resting
  | gathering (cycleEnd : Nat) : Shows gathering (.gathering cycleEnd)
  | stopping : Shows stopping .resting
  | emptying : Shows emptying .closing
  | ended : Shows ended .ended
  | brokenOff : Shows brokenOff .ended

namespace DeskStage

/-- Whether a task can be in a stage while its sender does nothing. -/
def isSettled : DeskStage → Bool
  | resting | gathering | ended | brokenOff => true
  | stopping | emptying => false

variable {stage : DeskStage} {phase : SendPhase}

theorem Shows.ended_of_isOver (h : stage.Shows phase) (hover : stage.isOver = true) :
    phase = .ended := by
  cases h <;> first | rfl | cases hover

theorem Shows.behindCycle (h : stage.Shows phase) :
    stage.behindCycle.Shows phase.behindCycle := by
  cases h <;> constructor

theorem Shows.gathering_of {cycleEnd : Nat} (h : stage.Shows (.gathering cycleEnd)) :
    stage = .gathering := by
  cases h
  rfl

theorem Shows.behindCycle_of_gathering (h : Shows .gathering phase) :
    phase.behindCycle = .resting := by
  cases h
  rfl

theorem Shows.close_of_stopping (h : Shows .stopping phase) : phase.close = .closing := by
  cases h
  rfl

theorem Shows.resting_iff (h : stage.Shows phase) (hstage : stage ≠ .stopping) :
    stage = .resting ↔ phase = .resting := by
  cases h <;> simp at hstage ⊢

theorem ne_stopping_of_isSettled (h : stage.isSettled = true) : stage ≠ .stopping := by
  rintro rfl
  cases h

theorem isOpen_or_isOver (h : stage.isSettled = true) :
    stage.isOpen = true ∨ stage.isOver = true := by
  cases stage with
  | resting | gathering => exact .inl rfl
  | stopping | emptying => cases h
  | ended | brokenOff => exact .inr rfl

@[simp] theorem isSettled_behindCycle (stage : DeskStage) :
    stage.behindCycle.isSettled = stage.isSettled := by
  cases stage <;> rfl

theorem Shows.takesRequests (h : stage.Shows phase)
    (hstage : stage = .gathering ∨ stage = .emptying) : phase.takesRequests = true := by
  cases h <;> simp [SendPhase.takesRequests] at hstage ⊢

end DeskStage

namespace Desk

/-- Steps lead from the one task to the other, and cycles begin in them only at certain times. -/
def Reaches (during : Nat → Prop) (d e : Desk) : Prop :=
  ∃ steps, (∀ begun, .begin begun ∈ steps → during begun) ∧ d.run steps = e

namespace Reaches

variable {during : Nat → Prop} {d e f : Desk}

theorem refl (during : Nat → Prop) (d : Desk) : Reaches during d d :=
  ⟨[], by simp, rfl⟩

theorem step (d : Desk) {op : DeskStep} (hop : ∀ begun, op = .begin begun → during begun) :
    Reaches during d (d.act op) := by
  refine ⟨[op], fun begun hbegun ↦ ?_, rfl⟩
  exact hop begun (List.mem_singleton.mp hbegun).symm

theorem trans (h : Reaches during d e) (hnext : Reaches during e f) : Reaches during d f := by
  obtain ⟨first, hfirst, rfl⟩ := h
  obtain ⟨second, hsecond, rfl⟩ := hnext
  refine ⟨first ++ second, fun begun hbegun ↦ ?_, run_append d first second⟩
  rcases List.mem_append.mp hbegun with hbegun | hbegun
  · exact hfirst begun hbegun
  · exact hsecond begun hbegun

end Reaches

/-- Steps that a task takes while it is not being stopped, and after which it is not either. -/
structure Advances (during : Nat → Prop) (d e : Desk) : Prop where
  reaches : Reaches during d e
  settled : d.stage.isSettled = true → e.stage.isSettled = true
  emptying : d.stage = .emptying → e.stage = .emptying

namespace Advances

variable {during : Nat → Prop} {d e f : Desk}

theorem refl (during : Nat → Prop) (d : Desk) : Advances during d d :=
  ⟨.refl during d, id, id⟩

theorem trans (h : Advances during d e) (hnext : Advances during e f) : Advances during d f :=
  ⟨h.reaches.trans hnext.reaches, hnext.settled ∘ h.settled, hnext.emptying ∘ h.emptying⟩

theorem ne_stopping (h : Advances during d e) (hstage : d.stage ≠ .stopping) :
    e.stage ≠ .stopping := by
  intro hstopping
  cases hd : d.stage with
  | stopping => exact hstage hd
  | emptying =>
    have hemptying := h.emptying hd
    rw [hstopping] at hemptying
    cases hemptying
  | resting | gathering | ended | brokenOff =>
    have hsettled := h.settled (by rw [hd]; rfl)
    rw [hstopping] at hsettled
    cases hsettled

end Advances

theorem take_of_some {d : Desk} {q : Outgoing} (h : d.outgoing.receive? = some q) :
    d.take = if q.isFull then { d with outgoing := q }.call else { d with outgoing := q } := by
  rw [take, h]

theorem answer_call (d : Desk) (responses : List Response) :
    d.call.act (.answer responses) =
      { d with
        outgoing := d.outgoing.handOver.settle responses
        stage := d.stage.behindCycle
        calling := false
        calls := d.calls ++ [(d.outgoing.batch, responses)] } := by
  rw [act, if_pos]
  · rfl
  · rfl

/-- The task is where a sender is whose calls come back. -/
structure Tracks (d : Desk) (s : Sender) : Prop where
  outgoing : d.outgoing = s.outgoing
  wait : d.wait = s.wait
  free : d.calling = false
  calm : s.mishap.crash = false ∧ s.mishap.stuck = false
  shows : d.stage.Shows s.phase
  finished : d.stage.isOver = true → s.outgoing.shut = s.outgoing

namespace Tracks

variable {during : Nat → Prop} {d e : Desk} {s : Sender} {stage : DeskStage}
variable (clocks : Clocks) {now : Nat} (feed : Feed)

/-- A commit is a call that comes back. -/
theorem commit (h : Tracks d s) (now : Nat) (hlive : stage.isOver = false)
    (hshows : stage.behindCycle.Shows s.phase.behindCycle) {op : DeskStep}
    (hop : ∀ begun, op ≠ .begin begun) (hact : e.act op = { d with stage := stage }.call) :
    ∃ f, Reaches during e f ∧ Tracks f (s.commit clocks now feed).1 ∧
      f.stage = stage.behindCycle ∧
      (s.commit clocks now feed).1.outgoing.queue = s.outgoing.queue ∧
      (s.commit clocks now feed).1.outgoing.batch = [] := by
  obtain ⟨responses, hcommit⟩ :=
    Sender.commit_of_calm clocks feed now h.calm.1 h.calm.2
  have hcalled : Reaches during e ({ d with stage := stage }.call.act (.answer responses)) := by
    rw [← hact]
    exact (Reaches.step e fun begun hbegun ↦ absurd hbegun (hop begun)).trans
      (.step _ fun begun hbegun ↦ by cases hbegun)
  rw [answer_call, h.outgoing] at hcalled
  rw [hcommit]
  refine ⟨_, hcalled, ⟨rfl, h.wait, rfl, h.calm, hshows, fun hover ↦ ?_⟩, rfl, rfl, rfl⟩
  rw [DeskStage.isOver_behindCycle, hlive] at hover
  cases hover

/-- The end of a cycle, for a step that sends the batch in hand, if there is anything in it. -/
theorem flush (h : Tracks d s) (now : Nat) (htakes : s.phase.takesRequests = true)
    (hlive : stage.isOver = false) (hshows : stage.behindCycle.Shows s.phase.behindCycle)
    {op : DeskStep} (hop : ∀ begun, op ≠ .begin begun)
    (hact : e.act op = { d with stage := stage }.callUnlessEmpty) :
    ∃ f, Reaches during e f ∧ Tracks f (s.flush clocks now feed).1 ∧
      f.stage = stage.behindCycle ∧
      (s.flush clocks now feed).1.outgoing.queue = s.outgoing.queue ∧
      (s.flush clocks now feed).1.outgoing.batch = [] := by
  have hinHand : d.outgoing.batch = s.outgoing.batch := by rw [h.outgoing]
  rw [callUnlessEmpty, hinHand] at hact
  rw [Sender.flush]
  by_cases hbatch : s.outgoing.batch = []
  · rw [if_pos hbatch] at hact
    rw [if_neg (by simp [hbatch])]
    refine ⟨e.act op, .step e fun begun hbegun ↦ absurd hbegun (hop begun), ?_, ?_, rfl, hbatch⟩
    · rw [hact]
      refine ⟨h.outgoing, h.wait, h.free, h.calm, hshows, fun hover ↦ ?_⟩
      rw [DeskStage.isOver_behindCycle, hlive] at hover
      cases hover
    · rw [hact]
  · rw [if_neg hbatch] at hact
    rw [if_pos ⟨htakes, hbatch⟩]
    exact h.commit clocks feed now hlive hshows hop hact

/-- A cycle begins, or cannot begin, which ends both. -/
theorem begin (h : Tracks d s) (hnow : during (1000000 * now)) (hstage : d.stage ≠ .stopping) :
    ∃ e, Advances during d e ∧ Tracks e (s.begin now) ∧
      (e.stage = .gathering ∨ e.stage = .emptying ∨ e.stage.isOver = true) ∧
      (s.begin now).outgoing.queue.length ≤ s.outgoing.queue.length := by
  by_cases hresting : d.stage = .resting
  · have hphase : s.phase = .resting := (h.shows.resting_iff hstage).mp hresting
    have hact : d.act (.begin (1000000 * now)) = d.begin (1000000 * now) :=
      if_pos ⟨h.free, hresting⟩
    have hreaches : Reaches during d (d.begin (1000000 * now)) := by
      rw [← hact]
      refine .step d fun begun hbegun ↦ ?_
      cases hbegun
      exact hnow
    have hsame : d.outgoing.cycleEnd? d.wait (1000000 * now) =
        s.outgoing.cycleEnd? s.wait (1000000 * now) := by rw [h.outgoing, h.wait]
    rw [Desk.begin, hsame] at hreaches
    cases hend : s.outgoing.cycleEnd? s.wait (1000000 * now) with
    | some cycleEnd =>
      rw [hend] at hreaches
      rw [Sender.begin_of_some hphase hend]
      exact ⟨_, ⟨hreaches, fun _ ↦ rfl, by simp [hresting]⟩,
        ⟨h.outgoing, h.wait, h.free, h.calm, .gathering _, by simp [DeskStage.isOver]⟩, .inl rfl,
        Nat.le_refl _⟩
    | none =>
      rw [hend] at hreaches
      rw [Sender.begin_of_none hphase hend]
      exact ⟨_, ⟨hreaches, fun _ ↦ rfl, by simp [hresting]⟩,
        ⟨congrArg Outgoing.shut h.outgoing, h.wait, h.free, h.calm, .brokenOff,
          fun _ ↦ s.shut_breakOff⟩,
        .inr (.inr rfl), Nat.zero_le _⟩
  · rw [Sender.begin_of_ne_resting (mt (h.shows.resting_iff hstage).mpr hresting)]
    refine ⟨d, .refl during d, h, ?_, Nat.le_refl _⟩
    cases hd : d.stage with
    | resting => exact absurd hd hresting
    | gathering => exact .inl rfl
    | stopping => exact absurd hd hstage
    | emptying => exact .inr (.inl rfl)
    | ended | brokenOff => exact .inr (.inr rfl)

theorem queue_of_isOver (h : Tracks d s) (hover : d.stage.isOver = true) :
    s.outgoing.queue = [] := by
  rw [← h.finished hover]
  rfl

theorem takeRequest (h : Tracks d s) (hnow : during (1000000 * now))
    (hstage : d.stage ≠ .stopping) :
    ∃ e, Advances during d e ∧ Tracks e (s.takeRequest clocks now feed).1 ∧
      (s.takeRequest clocks now feed).1.outgoing.queue.length ≤ s.outgoing.queue.length - 1 := by
  obtain ⟨e, hadvances, he, hwhich, hqueue⟩ := h.begin hnow hstage
  rw [← or_assoc] at hwhich
  rcases hwhich with htaking | hover
  · have htakes := he.shows.takesRequests htaking
    have hlive : e.stage.isOver = false := by rcases htaking with h | h <;> rw [h] <;> rfl
    have hact : e.act .take = e.take := if_pos ⟨he.free, htaking⟩
    cases hreceived : (s.begin now).outgoing.receive? with
    | none =>
      have hnone : (s.begin now).outgoing.queue = [] := by
        rw [Outgoing.receive?] at hreceived
        split at hreceived
        · assumption
        · cases hreceived
      rw [Sender.takeRequest_of_none clocks feed hreceived]
      exact ⟨e, hadvances, he, by rw [hnone]; exact Nat.zero_le _⟩
    | some q =>
      have hrest : q.queue.length ≤ s.outgoing.queue.length - 1 := by
        rw [Outgoing.receive?] at hreceived
        split at hreceived
        · cases hreceived
        · rename_i hfirst
          cases hreceived
          rw [hfirst] at hqueue
          exact Nat.le_sub_one_of_lt hqueue
      have htaken : Tracks { e with outgoing := q } { s.begin now with outgoing := q } :=
        ⟨rfl, he.wait, he.free, he.calm, he.shows, fun hover ↦ absurd hover (by simp [hlive])⟩
      rw [Sender.takeRequest_of_some clocks feed htakes hreceived]
      rw [← he.outgoing] at hreceived
      rw [take_of_some hreceived] at hact
      split at hact
      · rename_i hfull
        obtain ⟨f, hreaches, hf, hkept, hleft, -⟩ := htaken.commit clocks feed now hlive
          htaken.shows.behindCycle (by rintro _ ⟨⟩) hact
        rw [if_pos hfull]
        refine ⟨f, hadvances.trans ⟨hreaches, fun hsettled ↦ ?_, fun hemptying ↦ ?_⟩, hf, ?_⟩
        · rw [hkept, DeskStage.isSettled_behindCycle]
          exact hsettled
        · rw [hkept, hemptying]
          rfl
        · rw [hleft]
          exact hrest
      · rename_i hfull
        rw [if_neg hfull]
        have hreaches : Reaches during e (e.act .take) := .step e (by rintro _ ⟨⟩)
        rw [hact] at hreaches
        exact ⟨_, hadvances.trans ⟨hreaches, id, id⟩, htaken, hrest⟩
  · have hidle : (s.begin now).phase.takesRequests = false := by
      rw [he.shows.ended_of_isOver hover]
      rfl
    rw [Sender.takeRequest_of_idle clocks feed hidle]
    exact ⟨e, hadvances, he, by rw [he.queue_of_isOver hover]; exact Nat.zero_le _⟩

theorem takeRequests_list (h : Tracks d s) (hnow : during (1000000 * now))
    (hstage : d.stage ≠ .stopping) (entries : List Request) :
    ∃ e, Advances during d e ∧
      Tracks e (entries.foldl (fun (s, feed) _ ↦ s.takeRequest clocks now feed) (s, feed)).1 ∧
      (entries.foldl (fun (s, feed) _ ↦
        s.takeRequest clocks now feed) (s, feed)).1.outgoing.queue.length ≤
          s.outgoing.queue.length - entries.length := by
  induction entries generalizing d s feed with
  | nil => exact ⟨d, .refl during d, h, Nat.le_refl _⟩
  | cons r rest ih =>
    obtain ⟨e, hfirst, he, hshorter⟩ := h.takeRequest clocks feed hnow hstage
    obtain ⟨f, hlater, hf, hlast⟩ :=
      ih (s.takeRequest clocks now feed).2 he (hfirst.ne_stopping hstage)
    refine ⟨f, hfirst.trans hlater, hf, Nat.le_trans hlast ?_⟩
    rw [List.length_cons]
    omega

theorem takeRequests (h : Tracks d s) (hnow : during (1000000 * now))
    (hstage : d.stage ≠ .stopping) :
    ∃ e, Advances during d e ∧ Tracks e (s.takeRequests clocks now feed).1 ∧
      (s.takeRequests clocks now feed).1.outgoing.queue = [] := by
  obtain ⟨e, hadvances, he, hlength⟩ :=
    h.takeRequests_list clocks feed hnow hstage s.outgoing.queue
  rw [Nat.sub_self] at hlength
  exact ⟨e, hadvances, he, List.eq_nil_of_length_eq_zero (Nat.le_zero.mp hlength)⟩

theorem turnCycle (h : Tracks d s) (hnow : during (1000000 * now))
    (hsettled : d.stage.isSettled = true) :
    ∃ e, Advances during d e ∧ Tracks e (s.turnCycle clocks now feed).1 := by
  obtain ⟨e, hbegins, he, -, -⟩ := h.begin hnow (DeskStage.ne_stopping_of_isSettled hsettled)
  simp only [Sender.turnCycle]
  split
  · rename_i cycleEnd hphase
    split
    · exact ⟨e, hbegins, he⟩
    · -- The time of the cycle is over, and the next one begins at once.
      have hshows := he.shows
      rw [hphase] at hshows
      have hgathering : e.stage = .gathering := hshows.gathering_of
      have hact : e.act .timeout = e.callUnlessEmpty := if_pos ⟨he.free, hgathering⟩
      obtain ⟨f, hreaches, hf, hkept, -, -⟩ := he.flush clocks feed now
        (he.shows.takesRequests (.inl hgathering)) (by rw [hgathering]; rfl)
        he.shows.behindCycle (by rintro _ ⟨⟩) hact
      rw [hgathering] at hkept
      have hflushes : Advances during e f :=
        ⟨hreaches, fun _ ↦ by rw [hkept]; rfl, by simp [hgathering]⟩
      obtain ⟨g, hagain, hg, -, -⟩ := hf.begin hnow (by rw [hkept]; simp [DeskStage.behindCycle])
      exact ⟨g, hbegins.trans (hflushes.trans hagain), hg⟩
  · exact ⟨e, hbegins, he⟩

/-- What callers do to an open queue; nothing comes into a closed one. -/
theorem arrived (h : Tracks d s) (hsettled : d.stage.isSettled = true) {op : DeskStep}
    (hop : ∀ begun, op ≠ .begin begun) {q : Outgoing} (hact : d.act op = d.arrive q)
    (hclosed : d.stage.isOver = true → q = s.outgoing) :
    ∃ e, Advances during d e ∧ Tracks e { s with outgoing := q } := by
  rcases DeskStage.isOpen_or_isOver hsettled with hopen | hover
  · have hlive := DeskStage.isOver_of_isOpen hopen
    have hreaches : Reaches during d (d.act op) :=
      .step d fun begun hbegun ↦ absurd hbegun (hop begun)
    rw [hact, Desk.arrive, if_pos hopen] at hreaches
    exact ⟨_, ⟨hreaches, id, id⟩, rfl, h.wait, h.free, h.calm, h.shows,
      fun hover ↦ absurd hover (by simp [hlive])⟩
  · rw [hclosed hover]
    exact ⟨d, .refl during d, h⟩

theorem letIn (h : Tracks d s) (hsettled : d.stage.isSettled = true) :
    ∃ e, Advances during d e ∧ Tracks e { s with outgoing := s.outgoing.letIn } := by
  have hact : d.act .letIn = d.arrive s.outgoing.letIn := by rw [act, h.outgoing]
  refine h.arrived hsettled (by rintro _ ⟨⟩) hact fun hover ↦ ?_
  have hwaiting : s.outgoing.waiting = [] := by
    rw [← h.finished hover]
    rfl
  rw [Outgoing.letIn, hwaiting, List.take_nil, List.drop_nil, List.append_nil, ← hwaiting]

theorem passes (h : Tracks d s) (hnow : during (1000000 * now))
    (hsettled : d.stage.isSettled = true) (count : Nat) :
    ∃ e, Advances during d e ∧ Tracks e (Sender.passes clocks now count s feed).1 := by
  induction count generalizing d s feed with
  | zero => exact ⟨d, .refl during d, h⟩
  | succ count ih =>
    obtain ⟨e, htakes, he, -⟩ :=
      h.takeRequests clocks feed hnow (DeskStage.ne_stopping_of_isSettled hsettled)
    have hsecond := htakes.settled hsettled
    obtain ⟨f, hturns, hf⟩ :=
      he.turnCycle clocks (s.takeRequests clocks now feed).2 hnow hsecond
    have hthird := hturns.settled hsecond
    obtain ⟨g, hletIn, hg⟩ := hf.letIn hthird
    obtain ⟨last, hmore, hlast⟩ := ih _ hg (hletIn.settled hthird)
    exact ⟨last, htakes.trans (hturns.trans (hletIn.trans hmore)), hlast⟩

theorem shut (h : Tracks d s) (hstage : d.stage = .emptying) (hqueue : s.outgoing.queue = [])
    (hbatch : s.outgoing.batch = []) :
    ∃ e, Reaches during d e ∧ Tracks e s.breakOff ∧ e.stage = .ended := by
  have hreaches : Reaches during d (d.act .flush) := .step d (by rintro _ ⟨⟩)
  rw [← h.outgoing] at hqueue hbatch
  rw [act, if_pos ⟨h.free, hstage, hqueue⟩, finish, if_pos hbatch] at hreaches
  exact ⟨_, hreaches, ⟨congrArg Outgoing.shut h.outgoing, h.wait, h.free, h.calm, .ended,
    fun _ ↦ s.shut_breakOff⟩, rfl⟩

/-- What is left in hand when the queue is empty is committed, and then the task ends. -/
theorem lastFlush (h : Tracks d s) (now : Nat) (hstage : d.stage = .emptying)
    (hqueue : s.outgoing.queue = []) :
    ∃ e, Reaches during d e ∧ Tracks e (s.flush clocks now feed).1.breakOff ∧
      e.stage = .ended := by
  by_cases hbatch : s.outgoing.batch = []
  · have hflush : (s.flush clocks now feed).1.breakOff = s.breakOff := by
      rw [Sender.flush, if_neg (by simp [hbatch])]
      rfl
    rw [hflush]
    exact h.shut hstage hqueue hbatch
  · have hact : d.act .flush = d.call := by
      rw [act, if_pos ⟨h.free, hstage, by rw [h.outgoing, hqueue]⟩, finish,
        if_neg (by rwa [h.outgoing])]
    obtain ⟨e, hreaches, he, hkept, hleft, hnone⟩ := h.commit clocks feed now
      (by rw [hstage]; rfl) h.shows.behindCycle (by rintro _ ⟨⟩) hact
    rw [hstage] at hkept
    obtain ⟨f, hends, hf, hended⟩ := he.shut hkept (hleft.trans hqueue) hnone
    rw [Sender.flush, if_pos ⟨h.shows.takesRequests (.inr hstage), hbatch⟩]
    exact ⟨f, hreaches.trans hends, hf, hended⟩

/-- Closing commits what is in hand and in the queue before anything is dropped, unless the sender
has yet to begin and cannot. -/
theorem close (h : Tracks d s) (hnow : during (1000000 * now))
    (hsettled : d.stage.isSettled = true) :
    ∃ e, Advances during d e ∧ Tracks e (s.close clocks now feed).1 := by
  obtain ⟨e, hbegins, he, hwhich, -⟩ :=
    h.begin hnow (DeskStage.ne_stopping_of_isSettled hsettled)
  have hsecond := hbegins.settled hsettled
  rcases hwhich with hgathering | hemptying | hover
  · -- The batch in hand is committed while the queue is still open.
    have hstop : e.act .stop = { e with stage := .stopping }.callUnlessEmpty :=
      if_pos ⟨he.free, hgathering⟩
    have hshows := he.shows
    rw [hgathering] at hshows
    obtain ⟨f, hflushes, hf, hstopped, -, -⟩ := he.flush clocks feed now
      (he.shows.takesRequests (.inl hgathering)) rfl
      (by rw [hshows.behindCycle_of_gathering]; exact .stopping) (by rintro _ ⟨⟩) hstop
    -- From here on nobody comes in, and what is in the queue is committed.
    have hclose : f.act .close = { f with stage := .emptying } := if_pos ⟨hf.free, hstopped⟩
    have hcloses : Reaches during f (f.act .close) := .step f (by rintro _ ⟨⟩)
    rw [hclose] at hcloses
    have hlate := hf.shows
    rw [hstopped] at hlate
    have hg : Tracks { f with stage := .emptying }
        { ((s.begin now).flush clocks now feed).1 with
          phase := ((s.begin now).flush clocks now feed).1.phase.close } := by
      refine ⟨hf.outgoing, hf.wait, hf.free, hf.calm, ?_, by simp [DeskStage.isOver]⟩
      rw [hlate.close_of_stopping]
      exact .emptying
    obtain ⟨k, htakes, hk, hqueue⟩ :=
      hg.takeRequests clocks ((s.begin now).flush clocks now feed).2 hnow (by simp)
    obtain ⟨last, hends, hlast, hended⟩ := hk.lastFlush clocks _ now (htakes.emptying rfl) hqueue
    refine ⟨last, hbegins.trans ⟨hflushes.trans (hcloses.trans (htakes.reaches.trans hends)),
      fun _ ↦ by rw [hended]; rfl, by simp [hgathering]⟩, ?_⟩
    exact hlast
  · rw [hemptying] at hsecond
    cases hsecond
  · rw [Sender.close_of_ended clocks feed (he.shows.ended_of_isOver hover) (he.finished hover)]
    exact ⟨e, hbegins, he⟩

end Tracks

/-- Between two turns of the sender the task is not being stopped. -/
structure Rests (d : Desk) (s : Sender) : Prop extends Tracks d s where
  settled : d.stage.isSettled = true

/-- Steps of the task lead to where the sender is, and cycles begin in them only at certain
times. -/
def Leads (during : Nat → Prop) (d : Desk) (s : Sender) : Prop :=
  ∃ e, Reaches during d e ∧ Rests e s

variable {during : Nat → Prop} {d : Desk} {s t : Sender}

theorem Leads.trans (h : Leads during d s) (hnext : ∀ e, Rests e s → Leads during e t) :
    Leads during d t := by
  obtain ⟨e, hfirst, he⟩ := h
  obtain ⟨f, hsecond, hf⟩ := hnext e he
  exact ⟨f, hfirst.trans hsecond, hf⟩

namespace Rests

/-- Steps that leave the task where a sender is. -/
theorem leads (h : Rests d s) (hnext : ∃ e, Advances during d e ∧ Tracks e t) :
    Leads during d t := by
  obtain ⟨e, hadvances, he⟩ := hnext
  exact ⟨e, hadvances.reaches, he, hadvances.settled h.settled⟩

theorem closed (h : Rests d s) (hover : d.stage.isOver = true) : s.outgoing.closed = true := by
  rw [← h.finished hover]
  rfl

theorem tryEnqueue (h : Rests d s) {r : Request} {q : Outgoing}
    (hadmitted : s.outgoing.tryEnqueue r = .ok q) : Leads during d { s with outgoing := q } := by
  have hact : d.act (.tryEnqueue r) = d.arrive q := by
    rw [act, h.outgoing, hadmitted]
    rfl
  refine h.leads (h.arrived h.settled (by rintro _ ⟨⟩) hact fun hover ↦ ?_)
  rw [Outgoing.tryEnqueue, if_pos (h.closed hover)] at hadmitted
  cases hadmitted

theorem enqueue (h : Rests d s) {r : Request} {q : Outgoing}
    (hadmitted : s.outgoing.enqueue r = .ok q) : Leads during d { s with outgoing := q } := by
  have hact : d.act (.enqueue r) = d.arrive q := by
    rw [act, h.outgoing, hadmitted]
    rfl
  refine h.leads (h.arrived h.settled (by rintro _ ⟨⟩) hact fun hover ↦ ?_)
  rw [Outgoing.enqueue, Outgoing.tryEnqueue, if_pos (h.closed hover)] at hadmitted
  cases hadmitted

theorem withdraw (h : Rests d s) :
    Leads during d { s with outgoing := s.outgoing.withdraw } := by
  have hact : d.act (.leave fun _ ↦ true) = d.arrive s.outgoing.withdraw := by
    rw [act, h.outgoing, Outgoing.leave, Outgoing.withdraw]
    simp
  refine h.leads (h.arrived h.settled (by rintro _ ⟨⟩) hact fun hover ↦ ?_)
  rw [← h.finished hover]
  rfl

variable (clocks : Clocks) {now : Nat} (feed : Feed)

theorem run (h : Rests d s) (hnow : during (1000000 * now)) :
    Leads during d (s.run clocks now feed).1 :=
  h.leads (h.passes clocks feed hnow h.settled _)

theorem close (h : Rests d s) (hnow : during (1000000 * now)) :
    Leads during d (s.close clocks now feed).1 :=
  h.leads (h.toTracks.close clocks feed hnow h.settled)

end Rests

end Desk

/-- A turn of one of a node's tasks or of its callers. -/
inductive NodeTurn where
  | tryEnqueue (updates : List Update)
  | enqueue (updates : List Update)
  | withdraw
  /-- From now on calls return more responses than asked for, or fewer. -/
  | misfire (surplus : Int)
  | send (clocks : Clocks) (now : Nat) (feed : Feed)
  | poll (now : Nat) (feed : Feed)
  | apply (clocks : Clocks) (cost now : Nat)
  | close (clocks : Clocks) (now : Nat) (feed : Feed)

/-- When the sender runs, if it does. -/
def NodeTurn.sendsAt? : NodeTurn → Option Nat
  | send _ now _ | close _ now _ => some now
  | tryEnqueue _ | enqueue _ | withdraw | misfire _ | poll _ _ | apply _ _ _ => none

namespace Node

def turn (n : Node) : NodeTurn → Node
  | .tryEnqueue updates => (n.tryEnqueue updates).2.2
  | .enqueue updates => (n.enqueue updates).2
  | .withdraw => n.withOutgoing n.outgoing.withdraw
  | .misfire surplus => { n with sender := { n.sender with mishap := { surplus := surplus } } }
  | .send clocks now feed => (n.send clocks now feed).1
  | .poll now feed => n.poll now feed
  | .apply clocks cost now => (n.applyIfDue clocks cost now).1
  | .close clocks now feed => (n.close clocks now feed).1

def turns (n : Node) (more : List NodeTurn) : Node :=
  more.foldl turn n

variable {during : Nat → Prop} {d : Desk} {n : Node}

/-- Requests that come in change the queue, as the callers of the task behind it do, and nothing
else of a node. -/
theorem tryEnqueue_eq (n : Node) (updates : List Update) :
    ∃ sender callers, (n.tryEnqueue updates).2.2 = { n with sender, callers } ∧
      ∀ during d, Desk.Leads during d n.sender → Desk.Leads during d sender := by
  refine List.foldlRecOn (motive := fun acc : List (Except PoolError Unit) × List Nat × Node ↦
    ∃ sender callers, acc.2.2 = { n with sender, callers } ∧
      ∀ during d, Desk.Leads during d n.sender → Desk.Leads during d sender)
    updates _ ⟨_, _, rfl, fun _ _ h ↦ h⟩ ?_
  rintro ⟨outcomes, admitted, m⟩ ⟨sender, callers, hm, hleads⟩ u -
  obtain rfl : m = { n with sender, callers } := hm
  simp only
  split
  · rename_i q hadmitted
    exact ⟨_, _, rfl, fun during d h ↦
      (hleads during d h).trans fun e he ↦ he.tryEnqueue hadmitted⟩
  · exact ⟨_, _, rfl, hleads⟩

theorem enqueue_eq (n : Node) (updates : List Update) :
    ∃ sender callers, (n.enqueue updates).2 = { n with sender, callers } ∧
      ∀ during d, Desk.Leads during d n.sender → Desk.Leads during d sender := by
  refine List.foldlRecOn (motive := fun acc : List (Except PoolError Nat) × Node ↦
    ∃ sender callers, acc.2 = { n with sender, callers } ∧
      ∀ during d, Desk.Leads during d n.sender → Desk.Leads during d sender)
    updates _ ⟨_, _, rfl, fun _ _ h ↦ h⟩ ?_
  rintro ⟨outcomes, m⟩ ⟨sender, callers, hm, hleads⟩ u -
  obtain rfl : m = { n with sender, callers } := hm
  simp only
  split
  · rename_i q hadmitted
    exact ⟨_, _, rfl, fun during d h ↦
      (hleads during d h).trans fun e he ↦ he.enqueue hadmitted⟩
  · exact ⟨_, _, rfl, hleads⟩

theorem sender_applyIfDue (n : Node) (clocks : Clocks) (cost now : Nat) :
    (n.applyIfDue clocks cost now).1.sender = n.sender := by
  rw [applyIfDue]
  split
  · split
    · rfl
    · rw [applyRound]
      simp only
      split <;> rfl
  · rfl

theorem leads_turn (h : d.Leads during n.sender) (t : NodeTurn)
    (ht : ∀ now, t.sendsAt? = some now → during (1000000 * now)) :
    d.Leads during (n.turn t).sender := by
  cases t with
  | tryEnqueue updates =>
    obtain ⟨sender, callers, htried, hleads⟩ := n.tryEnqueue_eq updates
    rw [turn, htried]
    exact hleads during d h
  | enqueue updates =>
    obtain ⟨sender, callers, hqueued, hleads⟩ := n.enqueue_eq updates
    rw [turn, hqueued]
    exact hleads during d h
  | withdraw => exact h.trans fun e he ↦ he.withdraw
  | misfire surplus =>
    exact h.trans fun e he ↦ ⟨e, .refl during e,
      ⟨he.outgoing, he.wait, he.free, ⟨rfl, rfl⟩, he.shows, he.finished⟩, he.settled⟩
  | send clocks now feed => exact h.trans fun e he ↦ he.run clocks feed (ht now rfl)
  | poll now feed => exact h
  | apply clocks cost now =>
    rw [turn, sender_applyIfDue]
    exact h
  | close clocks now feed => exact h.trans fun e he ↦ he.close clocks feed (ht now rfl)

theorem leads_turns (h : d.Leads during n.sender) (more : List NodeTurn)
    (hmore : ∀ t ∈ more, ∀ now, t.sendsAt? = some now → during (1000000 * now)) :
    d.Leads during (n.turns more).sender := by
  induction more generalizing n with
  | nil => exact h
  | cons t later ih =>
    obtain ⟨ht, hlater⟩ := List.forall_mem_cons.mp hmore
    exact ih (leads_turn h t ht) hlater

theorem leads_start (during : Nat → Prop) (settings : Settings) (codec : Codec) (wall : UInt64)
    (now : Nat) :
    ({ outgoing := (start settings codec wall now).outgoing
       wait := settings.outgoingWait } : Desk).Leads during
      (start settings codec wall now).sender :=
  ⟨_, .refl during _, ⟨rfl, rfl, rfl, ⟨rfl, rfl⟩, .resting, by simp [DeskStage.isOver]⟩, rfl⟩

theorem poller_turn (n : Node) (t : NodeTurn) :
    (n.turn t).codec = n.codec ∧ ∃ steps, (n.turn t).poller = n.poller.acts n.codec steps := by
  cases t with
  | tryEnqueue updates =>
    obtain ⟨sender, callers, htried, -⟩ := n.tryEnqueue_eq updates
    rw [turn, htried]
    exact ⟨rfl, [], rfl⟩
  | enqueue updates =>
    obtain ⟨sender, callers, hqueued, -⟩ := n.enqueue_eq updates
    rw [turn, hqueued]
    exact ⟨rfl, [], rfl⟩
  | withdraw | misfire | send | close => exact ⟨rfl, [], rfl⟩
  | poll now feed =>
    obtain ⟨more, hrun⟩ := Poller.Reaches.run n.codec now feed n.poller
    exact ⟨rfl, more.map (now, ·), hrun⟩
  | apply clocks cost now =>
    rw [turn, applyIfDue]
    split
    · split
      · exact ⟨rfl, [], rfl⟩
      · rw [applyRound]
        simp only
        split
        · exact ⟨rfl, [(now, .orphan)], rfl⟩
        · rename_i drained hdrained
          obtain ⟨deadline, -, rfl⟩ := Option.map_eq_some_iff.mp hdrained
          exact ⟨rfl, [(now, .move (.drain _ _) (by rintro _ ⟨⟩)),
            (now, .move (.sweep _) (by rintro _ ⟨⟩))], rfl⟩
    · exact ⟨rfl, [], rfl⟩

/-- All that a node does to its poller are steps of a poller and moves of its intake. -/
theorem poller_turns (n : Node) (more : List NodeTurn) :
    (n.turns more).codec = n.codec ∧
      ∃ steps, (n.turns more).poller = n.poller.acts n.codec steps := by
  induction more generalizing n with
  | nil => exact ⟨rfl, [], rfl⟩
  | cons t later ih =>
    obtain ⟨hcodec, first, hfirst⟩ := n.poller_turn t
    obtain ⟨hlast, second, hsecond⟩ := ih (n.turn t)
    refine ⟨hlast.trans hcodec, first ++ second, ?_⟩
    rw [Poller.acts_append, ← hfirst, ← hcodec]
    exact hsecond

/-- All that a node does to its store and its queue it does by steps of its tasks, so what holds
of every run of these holds of nodes.  Cycles begin only at the times at which its sender runs. -/
theorem turns_explained (settings : Settings) (codec : Codec) (wall : UInt64) (now : Nat)
    (more : List NodeTurn) :
    ∃ intakeSteps deskSteps,
      ((start settings codec wall now).turns more).intake =
          ({ capacity := max 1 settings.maxUpdatesPerPoll.toNat } : Intake).run codec intakeSteps ∧
        ((start settings codec wall now).turns more).outgoing =
          (({ outgoing := {
                maxBatch := settings.maxBatch.toNat
                capacity := settings.queueCapacity.toNat }
              wait := settings.outgoingWait } : Desk).run deskSteps).outgoing ∧
        ∀ begun, .begin begun ∈ deskSteps →
          ∃ t ∈ more, ∃ time, t.sendsAt? = some time ∧ begun = 1000000 * time := by
  obtain ⟨-, steps, hpoller⟩ := (start settings codec wall now).poller_turns more
  obtain ⟨_, ⟨deskSteps, hbegins, rfl⟩, hrests⟩ :=
    leads_turns (leads_start
      (fun begun ↦ ∃ t ∈ more, ∃ time, t.sendsAt? = some time ∧ begun = 1000000 * time)
      settings codec wall now) more fun t ht time htime ↦ ⟨t, ht, time, htime, rfl⟩
  refine ⟨(start settings codec wall now).poller.moves codec steps, deskSteps, ?_,
    hrests.outgoing.symm, hbegins⟩
  rw [intake, hpoller]
  exact Poller.intake_acts _ steps

/-- No node polls too early. -/
theorem starts_turns_apart (settings : Settings) (codec : Codec) (wall : UInt64) (now : Nat)
    (more : List NodeTurn) :
    ((start settings codec wall now).turns more).poller.starts.Pairwise fun earlier later ↦
      earlier + settings.pollWait.length ≤ later := by
  obtain ⟨-, steps, hpoller⟩ := (start settings codec wall now).poller_turns more
  have hpaced : Poller.Paced [] (start settings codec wall now).poller := .fresh rfl rfl rfl
  have hapart := (hpaced.acts codec steps).starts_apart
  rw [Poller.wait_acts] at hapart
  rw [hpoller]
  exact hapart

/-- A node whose calls come back and whose cycles can begin drops no request, not even when it is
closed. -/
theorem kept_turns (settings : Settings) (codec : Codec) (wall : UInt64) (now : Nat)
    (hmax : 1 ≤ settings.maxBatch.toNat) (hroom : settings.maxBatch.toNat ≤ (UInt64.size / 2 - 1) / 88)
    (more : List NodeTurn)
    (hshown : ∀ t ∈ more, ∀ time, t.sendsAt? = some time →
      1000000 * time + settings.outgoingWait.length < Span.clockEnd) :
    ∀ reply ∈ ((start settings codec wall now).turns more).outgoing.replies,
      reply.2 ≠ .dropped := by
  obtain ⟨-, deskSteps, -, houtgoing, hbegins⟩ := turns_explained settings codec wall now more
  rw [houtgoing]
  have hsteady := (Desk.Steady.fresh settings.outgoingWait settings.queueCapacity.toNat
    ((UInt64.size / 2 - 1) / 88) hmax).run hmax deskSteps
  refine hsteady.kept (Desk.stage_run_ne_brokenOff (by simp) fun begun hbegun hfails ↦ ?_)
  obtain ⟨t, ht, time, htime, rfl⟩ := hbegins begun hbegun
  have hend := hshown t ht time htime
  rcases Outgoing.cycleEnd?_eq_none_iff.mp hfails with hlarge | hlate
  · exact absurd hroom (Nat.not_le.mpr hlarge)
  · exact absurd hend (Nat.not_lt.mpr hlate)

end Node

end TicketPool

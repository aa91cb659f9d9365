import Mathlib.Data.List.Basic
import TicketPool.Outgoing

/-!
# The way out as one task

The task that commits requests gathers a batch until it is full or the time of the cycle is
over.  When it is told to stop it commits the batch in hand, closes the queue, and commits what
is left in it.  Callers come and go between any two of its steps, also while a call is under way.

Each request that comes into the queue is sent and answered, with one exception: a cycle that cannot
begin breaks the task off, and what stands in the queue at that time is dropped.
-/

namespace TicketPool

theorem assignResponses_eq_mapIdx (sent received : Nat) (batch : List Request)
    (responses : List Response) :
    assignResponses sent received batch responses = batch.mapIdx fun i r ↦
      (r.caller, responses[i]?.getD
        (.failed r.update.key (.resultCountMismatch sent received))) := by
  induction batch generalizing responses with
  | nil => rfl
  | cons r rest ih =>
    cases responses with
    | nil => simp [assignResponses, List.mapIdx_cons, ih]
    | cons response responses => simp [assignResponses, List.mapIdx_cons, ih]

theorem assignResponses_callers (sent received : Nat) (batch : List Request)
    (responses : List Response) :
    (assignResponses sent received batch responses).map (·.1) = batch.map (·.caller) := by
  induction batch generalizing responses with
  | nil => rfl
  | cons r rest ih =>
    cases responses with
    | nil => exact congrArg (r.caller :: ·) (ih [])
    | cons response responses => exact congrArg (r.caller :: ·) (ih responses)

inductive DeskStage where
  /-- It is about to begin a cycle. -/
  | resting
  | gathering
  /-- It has been told to stop, and the queue is still open. -/
  | stopping
  /-- The queue is closed and is being emptied. -/
  | emptying
  | ended
  /-- A cycle could not begin. -/
  | brokenOff
deriving DecidableEq, Repr

namespace DeskStage

def isOpen : DeskStage → Bool
  | resting | gathering | stopping => true
  | emptying | ended | brokenOff => false

def isOver : DeskStage → Bool
  | ended | brokenOff => true
  | resting | gathering | stopping | emptying => false

/-- The stage behind a cycle. -/
def behindCycle : DeskStage → DeskStage
  | gathering => resting
  | stage => stage

theorem isOver_of_isOpen {stage : DeskStage} (h : stage.isOpen = true) : stage.isOver = false := by
  cases stage <;> first | rfl | cases h

@[simp] theorem isOver_behindCycle (stage : DeskStage) :
    stage.behindCycle.isOver = stage.isOver := by
  cases stage <;> rfl

@[simp] theorem behindCycle_eq_brokenOff_iff {stage : DeskStage} :
    stage.behindCycle = .brokenOff ↔ stage = .brokenOff := by
  cases stage <;> simp [behindCycle]

theorem ne_brokenOff {stage : DeskStage} (h : stage.isOver = false) : stage ≠ .brokenOff := by
  rintro rfl
  cases h

end DeskStage

/-- The task, and what has happened so far. -/
structure Desk where
  outgoing : Outgoing
  /-- How long a cycle lasts. -/
  wait : Span
  stage : DeskStage := .resting
  /-- Whether the batch in hand has been sent and is not answered yet. -/
  calling : Bool := false
  /-- The requests that have come into the queue. -/
  entered : List Request := []
  /-- The calls that have come back, each with what it was for and what it returned. -/
  calls : List (List Request × List Response) := []
  /-- The requests that were dropped when the task broke off. -/
  lost : List Request := []

inductive DeskStep where
  | tryEnqueue (r : Request)
  | enqueue (r : Request)
  | letIn
  /-- Callers go away: they no longer wait for room, but a request in the queue stays there. -/
  | leave (goes : Nat → Bool)
  /-- A cycle begins at a time in nanoseconds, or the task breaks off. -/
  | begin (now : Nat)
  | take
  | timeout
  /-- It is told to stop, or there are no callers any more. -/
  | stop
  | close
  | flush
  | answer (responses : List Response)

def Outgoing.answers (q : Outgoing) : List (Nat × Response) :=
  q.replies.filterMap fun
    | (caller, .response r) => some (caller, r)
    | _ => none

/-- The callers whose requests were dropped after they had been admitted. -/
def Outgoing.dropped (q : Outgoing) : List Nat :=
  q.replies.filterMap fun
    | (caller, .dropped) => some caller
    | _ => none

def Outgoing.leave (goes : Nat → Bool) (q : Outgoing) : Outgoing :=
  { q with waiting := q.waiting.filter fun r ↦ !goes r.caller }

namespace Outgoing

theorem answers_settle (q : Outgoing) (responses : List Response) :
    (q.settle responses).answers = q.answers ++ batchResponses q.batch responses := by
  rw [answers, settle, List.filterMap_append, List.filterMap_map]
  exact congrArg (q.answers ++ ·) List.filterMap_some

theorem dropped_settle (q : Outgoing) (responses : List Response) :
    (q.settle responses).dropped = q.dropped := by
  rw [dropped, settle, List.filterMap_append, List.filterMap_map]
  refine (congrArg (q.dropped ++ ·) (List.filterMap_eq_nil_iff.mpr fun _ _ ↦ ?_)).trans
    (List.append_nil _)
  rfl

theorem answers_shut (q : Outgoing) : q.shut.answers = q.answers := by
  have hdropped : (((q.batch ++ q.queue).map fun r ↦ (r.caller, Reply.dropped)).filterMap fun
      | (caller, .response r) => some (caller, r)
      | _ => none) = [] := by
    rw [List.filterMap_map, List.filterMap_eq_nil_iff]
    exact fun _ _ ↦ rfl
  have hrefused : ((q.waiting.map fun r ↦ (r.caller, Reply.refused)).filterMap fun
      | (caller, .response r) => some (caller, r)
      | _ => none) = [] := by
    rw [List.filterMap_map, List.filterMap_eq_nil_iff]
    exact fun _ _ ↦ rfl
  rw [answers, shut, List.filterMap_append, List.filterMap_append, hdropped, hrefused,
    List.append_nil, List.append_nil, answers]

theorem dropped_shut (q : Outgoing) :
    q.shut.dropped = q.dropped ++ (q.batch ++ q.queue).map (·.caller) := by
  have hrefused : ((q.waiting.map fun r ↦ (r.caller, Reply.refused)).filterMap fun
      | (caller, .dropped) => some caller
      | _ => none) = [] := by
    rw [List.filterMap_map, List.filterMap_eq_nil_iff]
    exact fun _ _ ↦ rfl
  rw [dropped, shut, List.filterMap_append, List.filterMap_append, hrefused, List.append_nil,
    List.filterMap_map]
  exact congrArg (q.dropped ++ ·) (congrFun List.filterMap_eq_map' _)

theorem mem_dropped {q : Outgoing} {reply : Nat × Reply} (hreply : reply ∈ q.replies)
    (hdropped : reply.2 = .dropped) : reply.1 ∈ q.dropped := by
  obtain ⟨caller, what⟩ := reply
  obtain rfl : what = .dropped := hdropped
  exact List.mem_filterMap.mpr ⟨_, hreply, rfl⟩

theorem cycleEnd?_eq_none_iff {wait : Span} {now : Nat} {q : Outgoing} :
    q.cycleEnd? wait now = none ↔ q.room < q.maxBatch ∨ Span.clockEnd ≤ now + wait.length := by
  rw [cycleEnd?, ← Span.deadline?_eq_none_iff, ← Nat.not_le]
  by_cases hroom : q.maxBatch ≤ q.room <;> simp [hroom]

end Outgoing

namespace Desk

/-- What callers do to the queue while it is open. -/
def arrive (d : Desk) (outgoing : Outgoing) : Desk :=
  if d.stage.isOpen then
    { d with
      outgoing
      entered := d.entered ++ outgoing.queue.drop d.outgoing.queue.length }
  else d

def call (d : Desk) : Desk :=
  { d with outgoing := d.outgoing.handOver, stage := d.stage.behindCycle, calling := true }

def callUnlessEmpty (d : Desk) : Desk :=
  if d.outgoing.batch = [] then { d with stage := d.stage.behindCycle } else d.call

def begin (now : Nat) (d : Desk) : Desk :=
  match d.outgoing.cycleEnd? d.wait now with
  | some _ => { d with stage := .gathering }
  | none =>
    { d with
      outgoing := d.outgoing.shut
      stage := .brokenOff
      lost := d.outgoing.batch ++ d.outgoing.queue }

def take (d : Desk) : Desk :=
  match d.outgoing.receive? with
  | none => d
  | some outgoing => if outgoing.isFull then { d with outgoing }.call else { d with outgoing }

def finish (d : Desk) : Desk :=
  if d.outgoing.batch = [] then { d with outgoing := d.outgoing.shut, stage := .ended }
  else d.call

/-- A step at a time at which the task or the callers cannot do it does nothing. -/
def act (d : Desk) : DeskStep → Desk
  | .tryEnqueue r => d.arrive ((d.outgoing.tryEnqueue r).toOption.getD d.outgoing)
  | .enqueue r => d.arrive ((d.outgoing.enqueue r).toOption.getD d.outgoing)
  | .letIn => d.arrive d.outgoing.letIn
  | .leave goes => d.arrive (d.outgoing.leave goes)
  | .begin now => if d.calling = false ∧ d.stage = .resting then d.begin now else d
  | .take =>
    if d.calling = false ∧ (d.stage = .gathering ∨ d.stage = .emptying) then d.take else d
  | .timeout => if d.calling = false ∧ d.stage = .gathering then d.callUnlessEmpty else d
  | .stop =>
    if d.calling = false ∧ d.stage = .gathering then
      { d with stage := .stopping }.callUnlessEmpty
    else d
  | .close =>
    if d.calling = false ∧ d.stage = .stopping then { d with stage := .emptying } else d
  | .flush =>
    if d.calling = false ∧ d.stage = .emptying ∧ d.outgoing.queue = [] then d.finish else d
  | .answer responses =>
    if d.calling = true then
      { d with
        outgoing := d.outgoing.settle responses
        calling := false
        calls := d.calls ++ [(d.outgoing.batch, responses)] }
    else d

def run (d : Desk) (steps : List DeskStep) : Desk :=
  steps.foldl act d

theorem run_append (d : Desk) (first second : List DeskStep) :
    d.run (first ++ second) = (d.run first).run second :=
  List.foldl_append

/-- The requests that have been taken from the queue and not been sent. -/
def inHand (d : Desk) : List Request :=
  if d.calling then [] else d.outgoing.batch

def onCall (d : Desk) : List (List Request) :=
  if d.calling then [d.outgoing.batch] else []

section

variable {d : Desk}

theorem inHand_of_free (h : d.calling = false) : d.inHand = d.outgoing.batch := by
  rw [inHand, h]
  rfl

theorem onCall_of_free (h : d.calling = false) : d.onCall = [] := by
  rw [onCall, h]
  rfl

theorem inHand_of_calling (h : d.calling = true) : d.inHand = [] :=
  if_pos h

theorem onCall_of_calling (h : d.calling = true) : d.onCall = [d.outgoing.batch] :=
  if_pos h

end

/-- Whether the books of the task are right. -/
structure Accounted (maxBatch : Nat) (d : Desk) : Prop where
  bound : d.outgoing.maxBatch = maxBatch
  order : d.outgoing.sent.flatten ++ d.inHand ++ d.outgoing.queue ++ d.lost = d.entered
  sizes : ∀ batch ∈ d.outgoing.sent, 1 ≤ batch.length ∧ batch.length ≤ maxBatch
  within : d.outgoing.batch.length ≤ maxBatch
  called : d.outgoing.sent = d.calls.map (·.1) ++ d.onCall
  answered : d.outgoing.answers = d.calls.flatMap fun c ↦ batchResponses c.1 c.2
  dropped : d.outgoing.dropped = d.lost.map (·.caller)
  intact : d.stage ≠ .brokenOff → d.lost = []
  batches : d.outgoing.tally.batches = d.calls.length
  committed : d.outgoing.tally.committed = d.outgoing.answers.countP (·.2.isOk)
  rejected : d.outgoing.tally.rejected = d.outgoing.answers.countP (!·.2.isOk)
  finished : d.stage.isOver = true → d.outgoing.queue = [] ∧ d.inHand = [] ∧ d.calling = false

/-- Between two steps the batch in hand has room, unless it has been sent. -/
structure Steady (maxBatch : Nat) (d : Desk) : Prop extends Accounted maxBatch d where
  room : d.calling = false → d.outgoing.batch.length < maxBatch

variable {maxBatch : Nat} {d : Desk}

theorem Accounted.lost_eq_nil (h : Accounted maxBatch d) (hlive : d.stage.isOver = false) :
    d.lost = [] :=
  h.intact (DeskStage.ne_brokenOff hlive)

theorem Steady.fresh (wait : Span) (capacity room : Nat) (hmax : 1 ≤ maxBatch) :
    Steady maxBatch { outgoing := { maxBatch, capacity, room }, wait } where
  bound := rfl
  order := rfl
  sizes := by simp
  within := Nat.zero_le _
  called := rfl
  answered := rfl
  dropped := rfl
  intact := fun _ ↦ rfl
  batches := rfl
  committed := rfl
  rejected := rfl
  finished := by simp [DeskStage.isOver]
  room := fun _ ↦ hmax

/-- Callers only add to the end of the queue. -/
theorem Steady.arrive (h : Steady maxBatch d) (more waiting : List Request) :
    Steady maxBatch
      (d.arrive { d.outgoing with queue := d.outgoing.queue ++ more, waiting := waiting }) := by
  have hopen (hlive : d.stage.isOver = false) : Steady maxBatch
      { d with
        outgoing := { d.outgoing with queue := d.outgoing.queue ++ more, waiting := waiting }
        entered := d.entered ++ more } := by
    refine { h with order := ?_, finished := fun hover ↦ ?_ }
    · -- What is sent and in hand is the same, and `more` comes behind it on both sides.
      change d.outgoing.sent.flatten ++ d.inHand ++ (d.outgoing.queue ++ more) ++ d.lost =
        d.entered ++ more
      rw [← h.order, h.lost_eq_nil hlive, List.append_nil, List.append_nil,
        List.append_assoc _ _ more]
    · exact absurd hover (by simp [hlive])
  rw [Desk.arrive, List.drop_left]
  split
  · rename_i hisOpen
    exact hopen (DeskStage.isOver_of_isOpen hisOpen)
  · exact h

theorem Steady.tryEnqueue (h : Steady maxBatch d) (r : Request) :
    Steady maxBatch (d.act (.tryEnqueue r)) := by
  have hsame := h.arrive [] d.outgoing.waiting
  rw [List.append_nil] at hsame
  rw [act, Outgoing.tryEnqueue]
  split
  · exact hsame
  · split
    · exact h.arrive [r] d.outgoing.waiting
    · exact hsame

theorem Steady.enqueue (h : Steady maxBatch d) (r : Request) :
    Steady maxBatch (d.act (.enqueue r)) := by
  have hsame := h.arrive [] d.outgoing.waiting
  have hwaits := h.arrive [] (d.outgoing.waiting ++ [r])
  rw [List.append_nil] at hsame hwaits
  rw [act, Outgoing.enqueue, Outgoing.tryEnqueue]
  by_cases hclosed : d.outgoing.closed = true
  · simp only [if_pos hclosed]
    exact hsame
  · simp only [if_neg hclosed]
    split
    · rename_i hroom
      split at hroom
      · cases hroom
        exact h.arrive [r] d.outgoing.waiting
      · cases hroom
    · exact hwaits
    · exact hsame

/-- Going on to another stage touches no request. -/
theorem Steady.goOn (h : Steady maxBatch d) (hlive : d.stage.isOver = false) {stage : DeskStage}
    (hstage : stage.isOver = false) : Steady maxBatch { d with stage := stage } :=
  { h with
    intact := fun _ ↦ h.lost_eq_nil hlive
    finished := fun hover ↦ absurd hover (by simp [hstage]) }

theorem Accounted.call (h : Accounted maxBatch d) (hfree : d.calling = false)
    (hlive : d.stage.isOver = false) (hbatch : d.outgoing.batch ≠ []) :
    Steady maxBatch d.call := by
  have hnonempty : 1 ≤ d.outgoing.batch.length := List.length_pos_iff.mpr hbatch
  refine { h with
    order := ?_, sizes := ?_, called := ?_, intact := fun _ ↦ h.lost_eq_nil hlive, finished := ?_,
    room := ?_ }
  · have horder := h.order
    rw [inHand_of_free hfree] at horder
    calc (d.outgoing.sent ++ [d.outgoing.batch]).flatten ++ [] ++ d.outgoing.queue ++ d.lost
      _ = d.outgoing.sent.flatten ++ d.outgoing.batch ++ d.outgoing.queue ++ d.lost := by simp
      _ = d.entered := horder
  · intro batch hmem
    rcases List.mem_append.mp hmem with hmem | hmem
    · exact h.sizes batch hmem
    · obtain rfl : batch = d.outgoing.batch := List.mem_singleton.mp hmem
      exact ⟨hnonempty, h.within⟩
  · have hcalled := h.called
    rw [onCall_of_free hfree, List.append_nil] at hcalled
    rw [onCall_of_calling rfl]
    exact congrArg (· ++ [d.outgoing.batch]) hcalled
  · intro hover
    rw [Desk.call, DeskStage.isOver_behindCycle, hlive] at hover
    cases hover
  · intro hcalling
    cases hcalling

theorem Steady.callUnlessEmpty (h : Steady maxBatch d) (hfree : d.calling = false)
    (hlive : d.stage.isOver = false) : Steady maxBatch d.callUnlessEmpty := by
  rw [Desk.callUnlessEmpty]
  split
  · refine h.goOn hlive ?_
    rw [DeskStage.isOver_behindCycle, hlive]
  · rename_i hbatch
    exact h.call hfree hlive hbatch

theorem Steady.take (h : Steady maxBatch d) (hfree : d.calling = false)
    (hlive : d.stage.isOver = false) : Steady maxBatch d.take := by
  rw [Desk.take, Outgoing.receive?]
  cases hqueue : d.outgoing.queue with
  | nil => exact h
  | cons r rest =>
    -- The batch may be full now: there is room in it again once it has been sent.
    have htaken : Accounted maxBatch
        { d with
          outgoing :=
            { d.outgoing with queue := rest, batch := d.outgoing.batch ++ [r] } } := by
      refine { h with order := ?_, within := ?_, called := ?_, finished := ?_ }
      · have horder := h.order
        simp only [inHand, hfree, hqueue] at horder ⊢
        simpa using horder
      · rw [List.length_append, List.length_singleton]
        exact h.room hfree
      · have hcalled := h.called
        simp only [onCall, hfree] at hcalled ⊢
        exact hcalled
      · exact fun hover ↦ absurd hover (by simp [hlive])
    simp only
    split
    · refine htaken.call hfree hlive ?_
      simp
    · rename_i hfull
      refine { htaken with room := fun _ ↦ ?_ }
      rw [Outgoing.isFull, decide_eq_true_eq, h.bound] at hfull
      exact Nat.lt_of_not_le hfull

/-- What is in hand and in the queue when the task shuts the queue is lost. -/
theorem Steady.shut (h : Steady maxBatch d) (hfree : d.calling = false)
    (hlive : d.stage.isOver = false) (stage : DeskStage)
    (hintact : stage ≠ .brokenOff → d.outgoing.batch ++ d.outgoing.queue = []) :
    Steady maxBatch
      { d with
        outgoing := d.outgoing.shut
        stage := stage
        lost := d.outgoing.batch ++ d.outgoing.queue } := by
  have hnone : { d with
      outgoing := d.outgoing.shut
      stage := stage
      lost := d.outgoing.batch ++ d.outgoing.queue }.inHand = [] := inHand_of_free hfree
  refine { h with
    order := ?_, within := Nat.zero_le _, called := ?_, answered := ?_, dropped := ?_,
    intact := hintact, committed := ?_, rejected := ?_, finished := fun _ ↦ ⟨rfl, hnone, hfree⟩,
    room := fun _ ↦ Nat.zero_lt_of_lt (h.room hfree) }
  · have horder := h.order
    rw [inHand_of_free hfree, h.lost_eq_nil hlive, List.append_nil, List.append_assoc] at horder
    rw [hnone, List.append_nil]
    exact (congrArg (· ++ (d.outgoing.batch ++ d.outgoing.queue)) (List.append_nil _)).trans horder
  · have hcalled := h.called
    simp only [onCall, hfree] at hcalled ⊢
    exact hcalled
  · rw [Outgoing.answers_shut]
    exact h.answered
  · rw [Outgoing.dropped_shut, h.dropped, h.lost_eq_nil hlive]
    rfl
  · rw [Outgoing.answers_shut]
    exact h.committed
  · rw [Outgoing.answers_shut]
    exact h.rejected

theorem Steady.begin (h : Steady maxBatch d) (hfree : d.calling = false)
    (hlive : d.stage.isOver = false) (now : Nat) : Steady maxBatch (d.begin now) := by
  rw [Desk.begin]
  split
  · exact h.goOn hlive rfl
  · exact h.shut hfree hlive .brokenOff fun hnot ↦ absurd rfl hnot

theorem Steady.finish (h : Steady maxBatch d) (hfree : d.calling = false)
    (hlive : d.stage.isOver = false) (hqueue : d.outgoing.queue = []) :
    Steady maxBatch d.finish := by
  rw [Desk.finish]
  split
  · rename_i hbatch
    have hnone : d.outgoing.batch ++ d.outgoing.queue = [] := by
      rw [hbatch, hqueue, List.append_nil]
    have hshut := h.shut hfree hlive .ended fun _ ↦ hnone
    rw [hnone, ← h.lost_eq_nil hlive] at hshut
    exact hshut
  · rename_i hbatch
    exact h.call hfree hlive hbatch

theorem Steady.answer (h : Steady maxBatch d) (hmax : 1 ≤ maxBatch) (responses : List Response) :
    Steady maxBatch (d.act (.answer responses)) := by
  rw [act]
  split
  · rename_i hcalling
    refine { h with
      order := ?_, within := Nat.zero_le _, called := ?_, answered := ?_, dropped := ?_,
      batches := ?_, committed := ?_, rejected := ?_, finished := ?_, room := fun _ ↦ hmax }
    · have horder := h.order
      rw [inHand_of_calling hcalling] at horder
      exact horder
    · have hcalled := h.called
      rw [onCall_of_calling hcalling] at hcalled
      rw [onCall_of_free rfl, List.append_nil, List.map_append]
      exact hcalled
    · rw [Outgoing.answers_settle, h.answered, List.flatMap_append, List.flatMap_singleton]
    · rw [Outgoing.dropped_settle]
      exact h.dropped
    · rw [List.length_append, ← h.batches]
      rfl
    · rw [Outgoing.answers_settle, List.countP_append, ← h.committed, List.countP_eq_length_filter]
      rfl
    · rw [Outgoing.answers_settle, List.countP_append, ← h.rejected, List.countP_eq_length_filter]
      rfl
    · intro hover
      -- A task that is over is not waiting for a call.
      obtain ⟨-, -, hfree⟩ := h.finished hover
      rw [hcalling] at hfree
      cases hfree
  · exact h

theorem Steady.act (h : Steady maxBatch d) (hmax : 1 ≤ maxBatch) (op : DeskStep) :
    Steady maxBatch (d.act op) := by
  cases op with
  | tryEnqueue r => exact h.tryEnqueue r
  | enqueue r => exact h.enqueue r
  | letIn => exact h.arrive _ _
  | leave goes =>
    have hleft := h.arrive [] (d.outgoing.waiting.filter fun r ↦ !goes r.caller)
    rw [List.append_nil] at hleft
    exact hleft
  | begin now =>
    rw [Desk.act]
    split
    · rename_i hdue
      exact h.begin hdue.1 (by simp [hdue.2, DeskStage.isOver]) now
    · exact h
  | take =>
    rw [Desk.act]
    split
    · rename_i hdue
      obtain ⟨hfree, hstage⟩ := hdue
      refine h.take hfree ?_
      rcases hstage with hstage | hstage <;> simp [hstage, DeskStage.isOver]
    · exact h
  | timeout =>
    rw [Desk.act]
    split
    · rename_i hdue
      exact h.callUnlessEmpty hdue.1 (by simp [hdue.2, DeskStage.isOver])
    · exact h
  | stop =>
    rw [Desk.act]
    split
    · rename_i hdue
      have hstopping : Steady maxBatch { d with stage := .stopping } :=
        h.goOn (by simp [hdue.2, DeskStage.isOver]) rfl
      exact hstopping.callUnlessEmpty hdue.1 rfl
    · exact h
  | close =>
    rw [Desk.act]
    split
    · rename_i hdue
      exact h.goOn (by simp [hdue.2, DeskStage.isOver]) rfl
    · exact h
  | flush =>
    rw [Desk.act]
    split
    · rename_i hdue
      obtain ⟨hfree, hstage, hqueue⟩ := hdue
      exact h.finish hfree (by simp [hstage, DeskStage.isOver]) hqueue
    · exact h
  | answer responses => exact h.answer hmax responses

theorem Steady.run (h : Steady maxBatch d) (hmax : 1 ≤ maxBatch) (steps : List DeskStep) :
    Steady maxBatch (d.run steps) := by
  induction steps generalizing d with
  | nil => exact h
  | cons op rest ih => exact ih (h.act hmax op)

theorem cycleEnd?_arrive (d : Desk) {q : Outgoing} (hmax : q.maxBatch = d.outgoing.maxBatch)
    (hroom : q.room = d.outgoing.room) (now : Nat) :
    (d.arrive q).outgoing.cycleEnd? (d.arrive q).wait now = d.outgoing.cycleEnd? d.wait now := by
  rw [arrive]
  split
  · simp only [Outgoing.cycleEnd?, hmax, hroom]
  · rfl

theorem cycleEnd?_callUnlessEmpty (d : Desk) (now : Nat) :
    d.callUnlessEmpty.outgoing.cycleEnd? d.callUnlessEmpty.wait now =
      d.outgoing.cycleEnd? d.wait now := by
  rw [callUnlessEmpty]
  split <;> rfl

/-- No step changes how long a cycle lasts, how large a batch may get, or for how large a one there
is room. -/
theorem cycleEnd?_act (d : Desk) (op : DeskStep) (now : Nat) :
    (d.act op).outgoing.cycleEnd? (d.act op).wait now = d.outgoing.cycleEnd? d.wait now := by
  cases op with
  | tryEnqueue r =>
    refine cycleEnd?_arrive d ?_ ?_ now <;> rw [Outgoing.tryEnqueue] <;> split_ifs <;> rfl
  | enqueue r =>
    refine cycleEnd?_arrive d ?_ ?_ now <;> rw [Outgoing.enqueue, Outgoing.tryEnqueue] <;>
      split_ifs <;> rfl
  | letIn | leave => refine cycleEnd?_arrive d ?_ ?_ now <;> rfl
  | begin start =>
    rw [act, begin]
    split_ifs
    · split <;> rfl
    · rfl
  | take =>
    rw [act, take, Outgoing.receive?]
    split_ifs
    · cases d.outgoing.queue with
      | nil => rfl
      | cons r rest =>
        simp only
        split_ifs <;> rfl
    · rfl
  | timeout =>
    rw [act]
    split_ifs
    · exact cycleEnd?_callUnlessEmpty d now
    · rfl
  | stop =>
    rw [act]
    split_ifs
    · exact cycleEnd?_callUnlessEmpty _ now
    · rfl
  | close =>
    rw [act]
    split_ifs <;> rfl
  | flush =>
    rw [act, finish]
    split_ifs <;> rfl
  | answer responses =>
    rw [act]
    split_ifs <;> rfl

theorem stage_arrive_eq_brokenOff_iff (d : Desk) (q : Outgoing) :
    (d.arrive q).stage = .brokenOff ↔ d.stage = .brokenOff := by
  rw [arrive]
  split_ifs <;> rfl

theorem stage_callUnlessEmpty_eq_brokenOff_iff (d : Desk) :
    d.callUnlessEmpty.stage = .brokenOff ↔ d.stage = .brokenOff := by
  rw [callUnlessEmpty, call]
  split_ifs <;> exact DeskStage.behindCycle_eq_brokenOff_iff

theorem stage_act_of_not_begin (d : Desk) {op : DeskStep} (hop : ∀ now, op ≠ .begin now) :
    (d.act op).stage = .brokenOff ↔ d.stage = .brokenOff := by
  cases op with
  | tryEnqueue | enqueue | letIn | leave => exact d.stage_arrive_eq_brokenOff_iff _
  | begin now => exact absurd rfl (hop now)
  | take =>
    rw [act, take]
    split_ifs
    · split
      · rfl
      · split_ifs
        · exact DeskStage.behindCycle_eq_brokenOff_iff
        · rfl
    · rfl
  | timeout =>
    rw [act]
    split_ifs
    · exact d.stage_callUnlessEmpty_eq_brokenOff_iff
    · rfl
  | stop =>
    rw [act]
    split_ifs with hdue
    · rw [stage_callUnlessEmpty_eq_brokenOff_iff, hdue.2]
      simp
    · rfl
  | close =>
    rw [act]
    split_ifs with hdue
    · simp [hdue.2]
    · rfl
  | flush =>
    rw [act, finish]
    split_ifs with hdue hbatch
    · simp [hdue.2.1]
    · exact DeskStage.behindCycle_eq_brokenOff_iff
    · rfl
  | answer responses =>
    rw [act]
    split_ifs <;> rfl

theorem stage_act_eq_brokenOff_iff (d : Desk) (op : DeskStep) :
    (d.act op).stage = .brokenOff ↔
      d.stage = .brokenOff ∨ ∃ now, op = .begin now ∧ d.stage = .resting ∧ d.calling = false ∧
        d.outgoing.cycleEnd? d.wait now = none := by
  by_cases hop : ∃ now, op = .begin now
  · obtain ⟨now, rfl⟩ := hop
    rw [act, begin]
    split_ifs with hdue
    · cases hend : d.outgoing.cycleEnd? d.wait now <;> simp [hdue, hend]
    · rw [or_iff_left]
      rintro ⟨-, -, hresting, hfree, -⟩
      exact hdue ⟨hfree, hresting⟩
  · rw [d.stage_act_of_not_begin (not_exists.mp hop), or_iff_left]
    rintro ⟨now, rfl, -⟩
    exact hop ⟨now, rfl⟩

/-- The task breaks off just when a cycle is to begin that cannot begin. -/
theorem stage_run_eq_brokenOff_iff (d : Desk) (steps : List DeskStep) :
    (d.run steps).stage = .brokenOff ↔
      d.stage = .brokenOff ∨
        ∃ front now back, steps = front ++ .begin now :: back ∧
          (d.run front).stage = .resting ∧ (d.run front).calling = false ∧
          d.outgoing.cycleEnd? d.wait now = none := by
  induction steps generalizing d with
  | nil => simp [run]
  | cons op rest ih =>
    rw [run, List.foldl_cons, ← run, ih, stage_act_eq_brokenOff_iff]
    simp only [cycleEnd?_act]
    constructor
    · rintro ((hover | ⟨now, rfl, hdue⟩) | ⟨front, now, back, rfl, hdue⟩)
      · exact .inl hover
      · exact .inr ⟨[], now, rest, rfl, hdue⟩
      · exact .inr ⟨op :: front, now, back, rfl, hdue⟩
    · rintro (hover | ⟨front, now, back, hsteps, hdue⟩)
      · exact .inl (.inl hover)
      · cases front with
        | nil =>
          obtain ⟨rfl, rfl⟩ := List.cons.inj hsteps
          exact .inl (.inr ⟨now, rfl, hdue⟩)
        | cons first front =>
          obtain ⟨rfl, rfl⟩ := List.cons.inj hsteps
          exact .inr ⟨front, now, back, rfl, hdue⟩

theorem stage_run_ne_brokenOff {d : Desk} {steps : List DeskStep} (hstage : d.stage ≠ .brokenOff)
    (hbegin : ∀ now, .begin now ∈ steps → d.outgoing.cycleEnd? d.wait now ≠ none) :
    (d.run steps).stage ≠ .brokenOff := by
  rw [Ne, stage_run_eq_brokenOff_iff, or_iff_right hstage]
  rintro ⟨front, now, back, rfl, -, -, hfails⟩
  exact hbegin now (List.mem_append_right _ List.mem_cons_self) hfails

theorem Accounted.kept (h : Accounted maxBatch d) (hstage : d.stage ≠ .brokenOff) :
    ∀ reply ∈ d.outgoing.replies, reply.2 ≠ .dropped := by
  intro reply hreply hdropped
  have hmem := Outgoing.mem_dropped hreply hdropped
  rw [h.dropped, h.intact hstage] at hmem
  exact List.not_mem_nil hmem

/-- Whatever its callers do and whatever the calls return, the task sends each request that has
come into the queue once and in order, and answers it once, but for those that it drops when it
breaks off; when it has ended, it has answered them all.  It breaks off just when a cycle is to
begin and there is no room for a batch or the clock cannot show the end of the cycle. -/
theorem every_request_answered {maxBatch : Nat} (wait : Span) (capacity room : Nat)
    (hmax : 1 ≤ maxBatch) (steps : List DeskStep) :
    let fresh : Desk := { outgoing := { maxBatch, capacity, room }, wait }
    let d := fresh.run steps
    d.outgoing.sent.flatten ++ d.inHand ++ d.outgoing.queue ++ d.lost = d.entered ∧
      (∀ batch ∈ d.outgoing.sent, 1 ≤ batch.length ∧ batch.length ≤ maxBatch) ∧
      d.outgoing.sent = d.calls.map (·.1) ++ d.onCall ∧
      (d.outgoing.answers = d.calls.flatMap fun (batch, responses) ↦ batch.mapIdx fun i r ↦
        (r.caller, responses[i]?.getD
          (.failed r.update.key (.resultCountMismatch batch.length responses.length)))) ∧
      d.outgoing.dropped = d.lost.map (·.caller) ∧
      (d.stage = .ended ∨ d.stage = .brokenOff →
        d.outgoing.sent.flatten ++ d.lost = d.entered ∧
          d.outgoing.answers.map (·.1) ++ d.outgoing.dropped = d.entered.map (·.caller)) ∧
      (d.stage ≠ .brokenOff → d.lost = []) ∧
      (d.stage = .brokenOff ↔ ∃ front now back, steps = front ++ .begin now :: back ∧
        (fresh.run front).stage = .resting ∧ (fresh.run front).calling = false ∧
        (room < maxBatch ∨ Span.clockEnd ≤ now + wait.length)) ∧
      (maxBatch ≤ room → (∀ now, .begin now ∈ steps → now + wait.length < Span.clockEnd) →
        d.stage ≠ .brokenOff ∧ ∀ reply ∈ d.outgoing.replies, reply.2 ≠ .dropped) ∧
      (d.calling = false → d.outgoing.tally.batches = d.outgoing.sent.length) ∧
      d.outgoing.tally.committed + d.outgoing.tally.rejected = d.outgoing.answers.length ∧
      d.outgoing.tally.rejected = d.outgoing.answers.countP (!·.2.isOk) := by
  intro fresh d
  have hsteady : Steady maxBatch d := (Steady.fresh wait capacity room hmax).run hmax steps
  have hreturned : d.outgoing.answers.map (·.1) =
      (d.calls.map (·.1)).flatten.map (·.caller) := by
    rw [hsteady.answered, List.map_flatMap, List.map_flatten, List.map_map, ← List.flatMap_def]
    apply List.flatMap_congr
    intro c _
    exact assignResponses_callers _ _ c.1 c.2
  have hbreaks : d.stage = .brokenOff ↔ ∃ front now back, steps = front ++ .begin now :: back ∧
      (fresh.run front).stage = .resting ∧ (fresh.run front).calling = false ∧
      (room < maxBatch ∨ Span.clockEnd ≤ now + wait.length) := by
    rw [stage_run_eq_brokenOff_iff, or_iff_right (by simp [fresh])]
    simp only [Outgoing.cycleEnd?_eq_none_iff, fresh]
  refine ⟨hsteady.order, hsteady.sizes, hsteady.called, ?_, hsteady.dropped, ?_, hsteady.intact,
    hbreaks, ?_, ?_, ?_, hsteady.rejected⟩
  · rw [hsteady.answered]
    apply List.flatMap_congr
    intro c _
    exact assignResponses_eq_mapIdx _ _ c.1 c.2
  · intro hover
    have hisOver : d.stage.isOver = true := by rcases hover with h | h <;> rw [h] <;> rfl
    obtain ⟨hqueue, hinHand, hfree⟩ := hsteady.finished hisOver
    have horder : d.outgoing.sent.flatten ++ d.lost = d.entered := by
      have horder := hsteady.order
      rwa [hqueue, hinHand, List.append_nil, List.append_nil] at horder
    have hcalled : d.outgoing.sent = d.calls.map (·.1) := by
      have hcalled := hsteady.called
      rwa [onCall_of_free hfree, List.append_nil] at hcalled
    refine ⟨horder, ?_⟩
    rw [hreturned, ← hcalled, hsteady.dropped, ← List.map_append, horder]
  · intro hroom hshown
    have hon : d.stage ≠ .brokenOff := by
      refine stage_run_ne_brokenOff (by simp [fresh]) fun now hnow hfails ↦ ?_
      have hbegun := hshown now hnow
      rw [Outgoing.cycleEnd?_eq_none_iff] at hfails
      simp only [fresh] at hfails
      omega
    exact ⟨hon, hsteady.kept hon⟩
  · intro hfree
    have hcalled := hsteady.called
    rw [onCall_of_free hfree, List.append_nil] at hcalled
    rw [hsteady.batches, hcalled, List.length_map]
  · have hcount := List.length_eq_countP_add_countP (·.2.isOk) (l := d.outgoing.answers)
    rw [hsteady.committed, hsteady.rejected]
    simpa using hcount.symm

/-- A full batch that gets too few responses, a caller that leaves before there is room for it,
a cycle that is over, and one batch more after the queue is closed. -/
def closing : List DeskStep :=
  let request caller := ⟨caller, .activate "a"⟩
  [.tryEnqueue (request 0), .tryEnqueue (request 1), .enqueue (request 2), .enqueue (request 3),
    .begin 0, .take, .take, .leave (· = 2), .letIn, .answer [.ok "a"], .begin 5000000, .take,
    .timeout, .tryEnqueue (request 4), .answer [.ok "b", .ok "c"], .begin 25000000, .stop, .close,
    .tryEnqueue (request 5), .take, .flush, .answer [.ok "d"], .flush]

theorem closing_answered :
    let d := run
      { outgoing := { maxBatch := 2, capacity := 2, room := 2 }, wait := .ofMillis 20 } closing
    1 ≤ 2 ∧ d.stage = .ended ∧ d.outgoing.sent.map (·.map (·.caller)) = [[0, 1], [3], [4]] ∧
      d.outgoing.sent.flatten = d.entered ∧
      d.outgoing.answers.map (·.1) = d.entered.map (·.caller) ∧
      (∀ now, .begin now ∈ closing → now + (Span.ofMillis 20).length < Span.clockEnd) ∧
      ∀ reply ∈ d.outgoing.replies, reply.2 ≠ .dropped := by
  intro d
  have hended : d.stage = .ended := by decide +kernel
  have hshown : ∀ now, .begin now ∈ closing →
      now + (Span.ofMillis 20).length < Span.clockEnd := by
    intro now hnow
    simp only [closing, List.mem_cons, reduceCtorEq, DeskStep.begin.injEq, false_or, or_false,
      List.not_mem_nil] at hnow
    rcases hnow with rfl | rfl | rfl <;> decide
  obtain ⟨-, -, -, -, hdropped, hall, hintact, -, hkept, -⟩ :=
    every_request_answered (.ofMillis 20) 2 2 (by decide : 1 ≤ 2) closing
  obtain ⟨hon, hreplies⟩ := hkept (Nat.le_refl 2) hshown
  obtain ⟨hsent, hanswers⟩ := hall (.inl hended)
  rw [hdropped, hintact hon, List.map_nil, List.append_nil] at hanswers
  rw [hintact hon, List.append_nil] at hsent
  exact ⟨by decide, hended, by decide +kernel, hsent, hanswers, hshown, hreplies⟩

/-- Two requests for batches of one, with cycles that last nearly as long as the clock does: the
second cycle cannot begin, and the second request is dropped. -/
theorem endless_cycle_drops :
    let wait : Span := { secs := 9223372036804775807, nanos := 0 }
    let steps : List DeskStep := [.begin 0, .tryEnqueue ⟨0, .activate "a"⟩,
      .tryEnqueue ⟨1, .activate "b"⟩, .take, .answer [.ok "a"], .begin 60000000000000000]
    let d := ({ outgoing := { maxBatch := 1, capacity := 4 }, wait } : Desk).run steps
    d.entered = [⟨0, .activate "a"⟩, ⟨1, .activate "b"⟩] ∧ d.stage = .brokenOff ∧
      d.outgoing.sent = [[⟨0, .activate "a"⟩]] ∧
      d.outgoing.replies = [(0, .response (.ok "a")), (1, .dropped)] := by
  decide +kernel

end Desk

end TicketPool

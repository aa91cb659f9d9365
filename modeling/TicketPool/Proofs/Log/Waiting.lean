import TicketPool.Log.Reader
import TicketPool.Proofs.Log.Calls

/-!
# Reads that wait

While a read waits, others add entries to the log and trim it, and now and then the reader runs.  It
looks at the log when it starts and then in each run that comes after an append.  The first look
that finds entries ends the wait, and if there is none, the first run at the deadline ends it.  A
read whose deadline the clock cannot show looks at nothing.
-/

namespace TicketPool

/-- What happens while a read waits: others call the log, or the reader runs. -/
inductive ReadEvent where
  | call (op : LogCall)
  | turn (now : Nat)

def LogCall.isAppend : LogCall → Bool
  | append _ _ => true
  | trim _ => false

namespace ReadEvent

/-- How many entries an event adds. -/
def size : ReadEvent → Nat
  | call op => op.size
  | turn _ => 0

/-- The events of a read among calls that come after delays.  The reader runs before a call unless
there is no delay, and at last it runs at its deadline. -/
def paced (deadline now : Nat) : List (Nat × LogCall) → List ReadEvent
  | [] => [turn now, turn (max now deadline)]
  | (delay, op) :: rest =>
    (if delay = 0 then [] else [turn now, turn (now + delay - 1)]) ++
      call op :: paced deadline (now + delay) rest

end ReadEvent

/-- A run of the reader: when it comes, the log at that time, and whether there has been an append
since the run before. -/
structure Turn where
  time : Nat
  log : Log
  news : Bool

/-- The runs that events bring. -/
def LogServer.turns (server : LogServer) (news : Bool) : List ReadEvent → List Turn
  | [] => []
  | .call op :: rest => (server.call op).turns (news || op.isAppend) rest
  | .turn now :: rest => ⟨now, server.log, news⟩ :: server.turns false rest

namespace Reader

section Start

variable {server : LogServer} {cursor : LogId} {count now : Nat} {block : Span}

theorem start_eq_none_iff :
    start server cursor count now block = none ↔
      Span.clockEnd ≤ 1000000 * now + block.length := by
  rw [← Span.deadline?_eq_none_iff, start]
  cases block.deadline? (1000000 * now) <;> simp

theorem start_of_lt (h : 1000000 * now + block.length < Span.clockEnd) :
    start server cursor count now block = some (first server cursor count now block.ticks) := by
  rw [start, Span.deadline?_of_lt h]

end Start

/-- The look that a reader takes when it runs, if it takes one: when, and what it finds. -/
def look? (server : LogServer) (now : Nat) : Reader → Option (Nat × List Entry)
  | waiting cursor count _ _ seen =>
    if seen < server.wakes then some (now, server.log.after cursor count) else none
  | done _ _ => none

def answer? : Reader → Option (Nat × Except PoolError (List Entry))
  | waiting _ _ _ _ _ => none
  | done time result => some (time, result)

/-- A run changes a waiting reader only by its look: found entries are the answer. -/
theorem wake_of_live {server : LogServer} (hlive : server.mode = .live true) (cursor : LogId)
    (count deadline seen now : Nat) :
    (waiting cursor count deadline (.ok []) seen).wake server now =
      match (waiting cursor count deadline (.ok []) seen).look? server now with
      | none => waiting cursor count deadline (.ok []) seen
      | some (time, found) =>
        if found = [] then waiting cursor count deadline (.ok []) server.wakes
        else done time (.ok found) := by
  rw [wake, look?]
  split_ifs with hnews
  · by_cases hnone : server.log.after cursor count = []
    · simp [LogServer.look, hlive, hnone]
    · simp [LogServer.look, hlive, hnone]
  · rfl

theorem finish_of_answer? {reader : Reader} {answer : Nat × Except PoolError (List Entry)}
    (h : reader.answer? = some answer) : reader.finish = answer := by
  cases reader with
  | waiting cursor count deadline result seen => simp [answer?] at h
  | done time result => simpa [answer?, finish] using h

theorem finish_expire (reader : Reader) (now : Nat) :
    (reader.expire now).finish = reader.finish := by
  cases reader with
  | waiting cursor count deadline result seen =>
    rw [expire]
    split_ifs <;> rfl
  | done time result => rfl

/-- A reader that has run takes no second look as long as the server is the same. -/
theorem wake_expire_wake (reader : Reader) (server : LogServer) (now later : Nat) :
    ((reader.wake server now).expire now).wake server later =
      (reader.wake server now).expire now := by
  cases reader with
  | waiting cursor count deadline result seen =>
    have hrest : ∀ result seen, server.wakes ≤ seen →
        ((waiting cursor count deadline result seen).expire now).wake server later =
          (waiting cursor count deadline result seen).expire now := by
      intro result seen hseen
      rw [expire]
      split_ifs
      · rfl
      · rw [wake, if_neg (Nat.not_lt.mpr hseen)]
    rw [wake]
    split_ifs with hlook
    · split
      · rfl
      · exact hrest _ _ (Nat.le_refl _)
    · exact hrest _ _ (Nat.le_of_not_lt hlook)
  | done time result => rfl

end Reader

/-- A read in progress, with the looks that its reader has taken. -/
structure Vigil where
  server : LogServer
  reader : Reader
  looks : List (Nat × List Entry)

namespace Turn

variable (cursor : LogId) (count deadline : Nat)

/-- Whether the reader looks in a run and finds entries. -/
def sees (t : Turn) : Bool :=
  t.news && !(t.log.after cursor count).isEmpty

def ends (t : Turn) : Bool :=
  t.sees cursor count || decide (deadline ≤ t.time)

/-- The answer of a read that ends in a run. -/
def verdict (t : Turn) : Nat × Except PoolError (List Entry) :=
  if t.sees cursor count then (t.time, .ok (t.log.after cursor count)) else (deadline, .ok [])

/-- The looks in a list of runs, up to the one in which the read ends. -/
def glances (turns : List Turn) : List (Nat × List Entry) :=
  ((turns.take (turns.findIdx (ends cursor count deadline) + 1)).filter news).map fun t ↦
    (t.time, t.log.after cursor count)

variable {cursor count deadline} {t : Turn} {rest : List Turn}

theorem ends_eq_false_iff : t.ends cursor count deadline = false ↔
    t.sees cursor count = false ∧ t.time < deadline := by
  simp [ends]

theorem glances_of_ends (h : t.ends cursor count deadline = true) :
    glances cursor count deadline (t :: rest) =
      if t.news then [(t.time, t.log.after cursor count)] else [] := by
  cases hnews : t.news <;> simp [glances, List.findIdx_cons, h, hnews]

theorem glances_of_not_ends (h : t.ends cursor count deadline = false) :
    glances cursor count deadline (t :: rest) =
      (if t.news then [(t.time, t.log.after cursor count)] else []) ++
        glances cursor count deadline rest := by
  cases hnews : t.news <;> simp [glances, List.findIdx_cons, h, hnews]

end Turn

namespace Vigil

/-- A read takes its first look when it starts, and goes on at once if it has no time to wait. -/
def watch (server : LogServer) (cursor : LogId) (count now : Nat) (reader : Reader) : Vigil where
  server := server
  reader := reader.expire now
  looks := [(now, server.log.after cursor count)]

def step (r : Vigil) : ReadEvent → Vigil
  | .call op => { r with server := r.server.call op }
  | .turn now =>
    { r with
      reader := (r.reader.wake r.server now).expire now
      looks := r.looks ++ (r.reader.look? r.server now).toList }

def run (r : Vigil) (events : List ReadEvent) : Vigil :=
  events.foldl step r

variable {cursor : LogId} {count deadline : Nat} {news : Bool} {r : Vigil} {t : Turn}

/-- The reader waits on a live server, and knows of all appends but those since its last run. -/
structure Waits (cursor : LogId) (count deadline : Nat) (news : Bool) (r : Vigil) : Prop where
  live : r.server.mode = .live true
  reader : ∃ seen, r.reader = .waiting cursor count deadline (.ok []) seen ∧
    seen ≤ r.server.wakes ∧ (seen < r.server.wakes ↔ news = true)

/-- What a run leaves of a read that has waited. -/
inductive Leaves (cursor : LogId) (count deadline : Nat) (t : Turn) (r : Vigil) : Prop where
  | finds (hsees : t.sees cursor count = true)
      (hreader : r.reader = .done t.time (.ok (t.log.after cursor count)))
  | lapses (hsees : t.sees cursor count = false) (hdue : deadline ≤ t.time)
      (hreader : r.reader = .done deadline (.ok []))
  | waits (hsees : t.sees cursor count = false) (hearly : t.time < deadline)
      (hwaits : r.Waits cursor count deadline false)

theorem Waits.call (h : r.Waits cursor count deadline news) (op : LogCall) :
    (r.step (.call op)).Waits cursor count deadline (news || op.isAppend) := by
  obtain ⟨seen, hreader, hseen, hnews⟩ := h.reader
  refine ⟨(r.server.mode_call op).trans h.live, seen, hreader, ?_⟩
  cases op with
  | append readings batch =>
    have hwakes : (r.server.call (.append readings batch)).wakes = r.server.wakes + 1 := by
      simp [LogServer.call, LogServer.append, h.live]
    change seen ≤ (r.server.call _).wakes ∧ (seen < (r.server.call _).wakes ↔ _)
    rw [hwakes, LogCall.isAppend, Bool.or_true]
    exact ⟨by omega, iff_of_true (by omega) rfl⟩
  | trim least =>
    have hwakes : (r.server.call (.trim least)).wakes = r.server.wakes := by
      simp [LogServer.call, LogServer.trim, h.live]
    change seen ≤ (r.server.call _).wakes ∧ (seen < (r.server.call _).wakes ↔ _)
    rw [hwakes, LogCall.isAppend, Bool.or_false]
    exact ⟨hseen, hnews⟩

/-- A reader that has looked, or had no need to, and found nothing. -/
theorem leaves_of_unseen (hlive : r.server.mode = .live true)
    (hsees : t.sees cursor count = false)
    (hreader : r.reader =
      (Reader.waiting cursor count deadline (.ok []) r.server.wakes).expire t.time) :
    Leaves cursor count deadline t r := by
  by_cases hdue : deadline ≤ t.time
  · refine .lapses hsees hdue ?_
    rw [hreader, Reader.expire, if_pos hdue]
  · refine .waits hsees (Nat.lt_of_not_le hdue) ⟨hlive, r.server.wakes, ?_, Nat.le_refl _, ?_⟩
    · rw [hreader, Reader.expire, if_neg hdue]
    · simp

theorem leaves_first (server : LogServer) (hlive : server.mode = .live true) (cursor : LogId)
    (count now block : Nat) :
    Leaves cursor count (now + block) ⟨now, server.log, true⟩
      (watch server cursor count now (.first server cursor count now block)) := by
  by_cases hnone : server.log.after cursor count = []
  · apply leaves_of_unseen hlive
    · simp [Turn.sees, hnone]
    · simp [watch, Reader.first, LogServer.look, hlive, hnone]
  · apply Leaves.finds
    · simp [Turn.sees, hnone]
    · simp [watch, Reader.first, LogServer.look, hlive, hnone, Reader.expire]

theorem Waits.look?_eq (h : r.Waits cursor count deadline news) (now : Nat) :
    r.reader.look? r.server now =
      if news then some (now, r.server.log.after cursor count) else none := by
  obtain ⟨seen, hreader, -, hnews⟩ := h.reader
  simp only [hreader, Reader.look?, hnews]

theorem Waits.looks_turn (h : r.Waits cursor count deadline news) (now : Nat) :
    (r.step (.turn now)).looks =
      r.looks ++ if news then [(now, r.server.log.after cursor count)] else [] := by
  simp only [step, h.look?_eq]
  cases news <;> rfl

theorem Waits.turn (h : r.Waits cursor count deadline news) (now : Nat) :
    Leaves cursor count deadline ⟨now, r.server.log, news⟩ (r.step (.turn now)) := by
  have hlook := h.look?_eq now
  obtain ⟨seen, hreader, hseen, hnews⟩ := h.reader
  have hlive : (r.step (.turn now)).server.mode = .live true := h.live
  rw [hreader] at hlook
  cases news with
  | true =>
    by_cases hnone : r.server.log.after cursor count = []
    · apply leaves_of_unseen hlive
      · simp [Turn.sees, hnone]
      · simp [step, hreader, Reader.wake_of_live h.live, hlook, hnone]
    · apply Leaves.finds
      · simp [Turn.sees, hnone]
      · simp [step, hreader, Reader.wake_of_live h.live, hlook, hnone, Reader.expire]
  | false =>
    have hall : seen = r.server.wakes := by
      refine Nat.le_antisymm hseen (Nat.le_of_not_lt fun hless ↦ ?_)
      exact Bool.false_ne_true (hnews.mp hless)
    subst hall
    apply leaves_of_unseen hlive
    · simp [Turn.sees]
    · simp [step, hreader, Reader.wake_of_live h.live, hlook]

theorem run_of_done {time : Nat} {result : Except PoolError (List Entry)}
    (h : r.reader = .done time result) (events : List ReadEvent) :
    (r.run events).reader = .done time result ∧ (r.run events).looks = r.looks := by
  induction events generalizing r with
  | nil => exact ⟨h, rfl⟩
  | cons event rest ih =>
    cases event with
    | call op => exact ih (r := r.step (.call op)) h
    | turn now =>
      have hstep : (r.step (.turn now)).reader = .done time result := by
        simp [step, h, Reader.wake, Reader.expire]
      have hlooks : (r.step (.turn now)).looks = r.looks := by
        simp [step, h, Reader.look?]
      obtain ⟨hreader, hsame⟩ := ih hstep
      exact ⟨hreader, hsame.trans hlooks⟩

/-- The answer of a read and its looks, from the runs of its reader. -/
structure Answers (cursor : LogId) (count deadline : Nat) (looks : List (Nat × List Entry))
    (turns : List Turn) (r : Vigil) : Prop where
  answer : r.reader.answer? =
    (turns.find? (Turn.ends cursor count deadline)).map (Turn.verdict cursor count deadline)
  looks : r.looks = looks ++ Turn.glances cursor count deadline turns

theorem answers_of_ends {looks : List (Nat × List Entry)} {turns : List Turn}
    {events : List ReadEvent} (hends : t.ends cursor count deadline = true)
    (hreader : r.reader = .done (t.verdict cursor count deadline).1
      (t.verdict cursor count deadline).2)
    (hlooks : r.looks = looks ++ if t.news then [(t.time, t.log.after cursor count)] else []) :
    (r.run events).Answers cursor count deadline looks (t :: turns) := by
  obtain ⟨hdone, hsame⟩ := run_of_done hreader events
  refine ⟨?_, ?_⟩
  · rw [hdone, List.find?_cons_of_pos hends]
    rfl
  · rw [hsame, hlooks, Turn.glances_of_ends hends]

theorem Leaves.answers {looks : List (Nat × List Entry)} {events : List ReadEvent}
    (h : Leaves cursor count deadline t r)
    (hlooks : r.looks = looks ++ if t.news then [(t.time, t.log.after cursor count)] else [])
    (hlater : r.Waits cursor count deadline false →
      (r.run events).Answers cursor count deadline r.looks (r.server.turns false events)) :
    (r.run events).Answers cursor count deadline looks (t :: r.server.turns false events) := by
  cases h with
  | finds hsees hreader =>
    apply answers_of_ends _ _ hlooks
    · simp [Turn.ends, hsees]
    · simp [Turn.verdict, hsees, hreader]
  | lapses hsees hdue hreader =>
    apply answers_of_ends _ _ hlooks
    · simp [Turn.ends, hdue]
    · simp [Turn.verdict, hsees, hreader]
  | waits hsees hearly hwaits =>
    have hends := Turn.ends_eq_false_iff.mpr ⟨hsees, hearly⟩
    obtain ⟨hanswer, hlast⟩ := hlater hwaits
    refine ⟨?_, ?_⟩
    · rw [hanswer, List.find?_cons_of_neg (by simp [hends])]
    · rw [hlast, hlooks, Turn.glances_of_not_ends hends, List.append_assoc]

theorem Waits.answers (h : r.Waits cursor count deadline news) (events : List ReadEvent) :
    (r.run events).Answers cursor count deadline r.looks (r.server.turns news events) := by
  induction events generalizing r news with
  | nil =>
    obtain ⟨seen, hreader, -⟩ := h.reader
    exact ⟨by simp [run, hreader, Reader.answer?, LogServer.turns],
      by simp [run, LogServer.turns, Turn.glances]⟩
  | cons event rest ih =>
    cases event with
    | call op => exact ih (h.call op)
    | turn now => exact (h.turn now).answers (h.looks_turn now) ih

theorem answers_first (server : LogServer) (hlive : server.mode = .live true) (cursor : LogId)
    (count now block : Nat) (events : List ReadEvent) :
    ((watch server cursor count now (.first server cursor count now block)).run events).Answers
      cursor count (now + block) [] (server.turns true (.turn now :: events)) :=
  (leaves_first server hlive cursor count now block).answers rfl fun h ↦ h.answers events

/-- A read that is followed among calls is the run of their events. -/
theorem follow_eq_run (r : Vigil) (deadline now : Nat) (schedule : List (Nat × LogCall)) :
    (Reader.follow id r.server now r.reader
      (schedule.map fun timed ↦ (timed.1, fun server ↦ ((), server.call timed.2)))).2 =
      ((r.run (ReadEvent.paced deadline now schedule)).server,
        (r.run (ReadEvent.paced deadline now schedule)).reader.finish) := by
  induction schedule generalizing r now with
  | nil =>
    simp [Reader.follow, ReadEvent.paced, run, step, Reader.wake_expire_wake, Reader.finish_expire]
  | cons timed rest ih =>
    obtain ⟨delay, op⟩ := timed
    by_cases hnow : delay = 0
    · have hrest := ih (r.step (.call op)) (now + delay)
      simpa [Reader.follow, ReadEvent.paced, run, step, hnow] using hrest
    · have hrest := ih (((r.step (.turn now)).step (.turn (now + delay - 1))).step (.call op))
        (now + delay)
      simpa [Reader.follow, ReadEvent.paced, run, step, hnow, Reader.wake_expire_wake] using hrest

/-- Among timed calls the reader runs at its deadline, if not before. -/
theorem exists_due_turn (server : LogServer) (news : Bool) (deadline now : Nat)
    (schedule : List (Nat × LogCall)) :
    ∃ t ∈ server.turns news (ReadEvent.paced deadline now schedule), deadline ≤ t.time := by
  induction schedule generalizing server news now with
  | nil =>
    refine ⟨⟨max now deadline, server.log, false⟩, ?_, Nat.le_max_right _ _⟩
    simp [ReadEvent.paced, LogServer.turns]
  | cons timed rest ih =>
    obtain ⟨delay, op⟩ := timed
    by_cases hnow : delay = 0
    · obtain ⟨t, ht, hdue⟩ := ih (server.call op) (news || op.isAppend) (now + delay)
      refine ⟨t, ?_, hdue⟩
      simpa [ReadEvent.paced, LogServer.turns, hnow] using ht
    · obtain ⟨t, ht, hdue⟩ := ih (server.call op) op.isAppend (now + delay)
      refine ⟨t, ?_, hdue⟩
      simp [ReadEvent.paced, LogServer.turns, hnow, ht]

theorem log_of_mem_turns {earlier : List LogCall} {events : List ReadEvent}
    (ht : t ∈ (LogServer.called earlier).turns news events) :
    ∃ calls, t.log = (LogServer.called calls).log ∧
      (calls.map LogCall.size).sum ≤
        (earlier.map LogCall.size).sum + (events.map ReadEvent.size).sum := by
  induction events generalizing earlier news with
  | nil => simp [LogServer.turns] at ht
  | cons event rest ih =>
    cases event with
    | call op =>
      have hcalled : (LogServer.called earlier).call op = LogServer.called (earlier ++ [op]) := by
        simp [LogServer.called]
      rw [LogServer.turns, hcalled] at ht
      obtain ⟨calls, hlog, hsize⟩ := ih ht
      refine ⟨calls, hlog, ?_⟩
      simp only [List.map_append, List.sum_append, List.map_cons, List.sum_cons, List.map_nil,
        List.sum_nil, ReadEvent.size] at hsize ⊢
      omega
    | turn now =>
      rw [LogServer.turns, List.mem_cons] at ht
      rcases ht with rfl | hlater
      · exact ⟨earlier, rfl, Nat.le_add_right _ _⟩
      · obtain ⟨calls, hlog, hsize⟩ := ih hlater
        exact ⟨calls, hlog, by simpa [ReadEvent.size] using hsize⟩

/-- A read answers with what its first look that finds entries finds, or with nothing in the first
run at its deadline if no look before has found any. -/
theorem Answers.cases {looks : List (Nat × List Entry)} {turns : List Turn}
    (h : r.Answers cursor count deadline looks turns) :
    (r.reader.answer? = none ∧ ∀ t ∈ turns, t.sees cursor count = false ∧ t.time < deadline) ∨
      ∃ front t back, turns = front ++ t :: back ∧
        (∀ x ∈ front, x.sees cursor count = false ∧ x.time < deadline) ∧
        (t.sees cursor count = true ∧
            r.reader.answer? = some (t.time, .ok (t.log.after cursor count)) ∨
          t.sees cursor count = false ∧ deadline ≤ t.time ∧
            r.reader.answer? = some (deadline, .ok [])) := by
  cases hend : turns.find? (Turn.ends cursor count deadline) with
  | none =>
    refine .inl ⟨by rw [h.answer, hend, Option.map_none], fun t ht ↦ ?_⟩
    exact Turn.ends_eq_false_iff.mp (Bool.eq_false_of_not_eq_true (List.find?_eq_none.mp hend t ht))
  | some t =>
    obtain ⟨hends, front, back, hturns, hfront⟩ := List.find?_eq_some_iff_append.mp hend
    refine .inr ⟨front, t, back, hturns, fun x hx ↦ ?_, ?_⟩
    · exact Turn.ends_eq_false_iff.mp (by simpa using hfront x hx)
    · rw [h.answer, hend, Option.map_some, Turn.verdict]
      cases hsees : t.sees cursor count with
      | true => exact .inl ⟨rfl, rfl⟩
      | false => exact .inr ⟨rfl, by simpa [Turn.ends, hsees] using hends, rfl⟩

theorem Answers.isSome {looks : List (Nat × List Entry)} {turns : List Turn}
    (h : r.Answers cursor count deadline looks turns) (ht : t ∈ turns) (hdue : deadline ≤ t.time) :
    r.reader.answer?.isSome := by
  rw [h.answer, Option.isSome_map, List.find?_isSome]
  exact ⟨t, ht, by simp [Turn.ends, hdue]⟩

/-- A read breaks off just if the clock cannot show its deadline, and then it looks at nothing.
Otherwise it misses nothing while it waits among calls on a log: its looks are the one at the start
and those of the runs that come after an append.  The first of them that finds entries is its
answer, and only when its time has passed without one it answers with nothing. -/
theorem run_misses_nothing (earlier : List LogCall) (cursor : LogId) (count start : Nat)
    (block : Span) (events : List ReadEvent) :
    let server := LogServer.called earlier
    let deadline := start + block.ticks
    let turns := server.turns true (.turn start :: events)
    (Reader.start server cursor count start block = none ↔
        Span.clockEnd ≤ 1000000 * start + block.length) ∧
      (1000000 * start + block.length < Span.clockEnd →
        ∃ reader, Reader.start server cursor count start block = some reader ∧
          let read := (watch server cursor count start reader).run events
          read.looks = Turn.glances cursor count deadline turns ∧
            (read.reader.answer? = none ∧
                (∀ t ∈ turns, t.sees cursor count = false ∧ t.time < deadline) ∨
              ∃ front t back, turns = front ++ t :: back ∧
                (∀ x ∈ front, x.sees cursor count = false ∧ x.time < deadline) ∧
                (t.sees cursor count = true ∧
                    read.reader.answer? = some (t.time, .ok (t.log.after cursor count)) ∨
                  t.sees cursor count = false ∧ deadline ≤ t.time ∧
                    read.reader.answer? = some (deadline, .ok []))) ∧
            ((earlier.map LogCall.size).sum + (events.map ReadEvent.size).sum < 2 ^ 64 →
              ∀ t ∈ turns, t.log.after cursor count =
                (t.log.entries.toList.filter fun e ↦ decide (cursor < e.id)).take count) ∧
            ∀ schedule, events = ReadEvent.paced deadline start schedule →
              read.reader.answer? = some (Reader.follow id server start (reader.expire start)
                (schedule.map fun timed ↦
                  (timed.1, fun server ↦ ((), server.call timed.2)))).2.2) := by
  intro server deadline turns
  refine ⟨Reader.start_eq_none_iff, fun hshown ↦ ?_⟩
  refine ⟨.first server cursor count start block.ticks, Reader.start_of_lt hshown, ?_⟩
  intro read
  have hanswers := answers_first server (LogServer.mode_called earlier) cursor count start
    block.ticks events
  refine ⟨by simpa using hanswers.looks, hanswers.cases, fun hfew t ht ↦ ?_, ?_⟩
  · obtain ⟨calls, hlog, hsize⟩ := log_of_mem_turns ht
    rw [hlog]
    refine Log.after_eq_take_filter (LogServer.sorted_called ?_) cursor count
    rw [List.map_cons, List.sum_cons, ReadEvent.size] at hsize
    omega
  · rintro schedule rfl
    have hfollow := congrArg Prod.snd (follow_eq_run
      (watch server cursor count start (.first server cursor count start block.ticks))
      deadline start schedule)
    obtain ⟨t, ht, hdue⟩ := exists_due_turn server false deadline start schedule
    obtain ⟨answer, hanswer⟩ := Option.isSome_iff_exists.mp
      (hanswers.isSome (List.mem_cons_of_mem _ ht) hdue)
    exact hanswer.trans
      (congrArg some ((Reader.finish_of_answer? hanswer).symm.trans hfollow.symm))

/-- An entry that is trimmed away again before the reader runs wakes it in vain, and the deadline
stays what it was. -/
theorem trimmed_unseen :
    let server := LogServer.called [.append (fun _ ↦ 5) [[("activate", "a")]]]
    let schedule : List (Nat × LogCall) :=
      [(10, .append (fun _ ↦ 6) [[("activate", "b")]]), (0, .trim ⟨9, 0⟩),
        (20, .append (fun _ ↦ 7) [[("activate", "c")]])]
    let block := Span.ofMillis 50
    let events := ReadEvent.paced (100 + block.ticks) 100 schedule
    1000000 * 100 + block.length < Span.clockEnd ∧
      1 + (events.map ReadEvent.size).sum < 2 ^ 64 ∧
      ∃ reader, Reader.start server ⟨5, 0⟩ 10 100 block = some reader ∧
        ((watch server ⟨5, 0⟩ 10 100 reader).run events).looks =
          [(100, []), (110, []), (130, [⟨⟨7, 0⟩, [("activate", "c")]⟩])] ∧
        (∀ t ∈ server.turns true (.turn 100 :: events), t.log.after ⟨5, 0⟩ 10 =
          (t.log.entries.toList.filter fun e ↦ decide (⟨5, 0⟩ < e.id)).take 10) ∧
        (Reader.follow id server 100 (reader.expire 100)
          (schedule.map fun timed ↦ (timed.1, fun server ↦ ((), server.call timed.2)))).2.2 =
          (130, .ok [⟨⟨7, 0⟩, [("activate", "c")]⟩]) := by
  intro server schedule block events
  have hshown : 1000000 * 100 + block.length < Span.clockEnd := by decide
  have hfew : 1 + (events.map ReadEvent.size).sum < 2 ^ 64 := by decide
  obtain ⟨reader, hreader, hlooks, -, hplain, hfollow⟩ :=
    (run_misses_nothing [.append (fun _ ↦ 5) [[("activate", "a")]]] ⟨5, 0⟩ 10 100 block
      events).2 hshown
  refine ⟨hshown, hfew, reader, hreader, hlooks.trans (by decide +kernel), hplain hfew, ?_⟩
  obtain rfl : Reader.first server ⟨5, 0⟩ 10 100 block.ticks = reader :=
    Option.some.inj ((Reader.start_of_lt hshown).symm.trans hreader)
  have hanswer : ((watch server ⟨5, 0⟩ 10 100
      (.first server ⟨5, 0⟩ 10 100 block.ticks)).run events).reader.answer? =
        some (130, .ok [⟨⟨7, 0⟩, [("activate", "c")]⟩]) := by decide +kernel
  exact Option.some.inj ((hfollow schedule rfl).symm.trans hanswer)

/-- A read that may wait for ever breaks off although there is an entry for it. -/
theorem endless_read_breaks_off :
    let server := LogServer.called [.append (fun _ ↦ 5) [[("activate", "a")]]]
    server.log.after ⟨0, 0⟩ 10 = [⟨⟨5, 0⟩, [("activate", "a")]⟩] ∧
      Reader.start server ⟨0, 0⟩ 10 0 .longest = none := by
  intro server
  refine ⟨by decide +kernel, ?_⟩
  rw [Reader.start_eq_none_iff]
  decide

end Vigil

end TicketPool

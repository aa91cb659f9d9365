import TicketPool.Proofs.Intake.Pipeline

/-!
# Drains get on

A drain takes updates until the channel is empty or the clock has reached its deadline, and it looks
at the clock only after an update and only if another one is left.  So each drain takes at least one
update if there is one, and a channel is empty after as many drains as it has updates, however long
updates take.  All this needs a deadline that the clock can show: a drain without one breaks off and
takes nothing.
-/

namespace TicketPool

section Until

variable {deadline : Nat} {clock : Nat → Nat} {updates : List Update}

theorem taken_drainUntil_ne_nil (h : updates ≠ []) :
    (drainUntil deadline clock updates).taken ≠ [] := by
  obtain ⟨u, rest, rfl⟩ := List.exists_cons_of_ne_nil h
  rw [drainUntil]
  split <;> exact List.cons_ne_nil _ _

theorem cut_drainUntil_iff :
    (drainUntil deadline clock updates).cut = true ↔
      (drainUntil deadline clock updates).left ≠ [] := by
  fun_induction drainUntil deadline clock updates with
  | case1 => simp
  | case2 _ _ _ hdue => simpa using hdue.2
  | case3 _ _ _ _ _ ih => exact ih

/-- The clock is at the deadline after the update behind which something is left. -/
theorem le_clock_of_left (h : (drainUntil deadline clock updates).left ≠ []) :
    deadline ≤ clock ((drainUntil deadline clock updates).taken.length - 1) := by
  fun_induction drainUntil deadline clock updates with
  | case1 => exact absurd rfl h
  | case2 _ _ _ hdue => exact hdue.1
  | case3 clock u rest hgoes later ih =>
    have hsome : rest ≠ [] := by
      rintro rfl
      exact h rfl
    have hpos : 1 ≤ later.taken.length := List.length_pos_iff.mpr (taken_drainUntil_ne_nil hsome)
    have hlater : deadline ≤ clock (later.taken.length - 1 + 1) := ih h
    rwa [Nat.sub_add_cancel hpos] at hlater

/-- The clock is before the deadline after each update but the last one. -/
theorem clock_lt_of_taken :
    ∀ k, k + 1 < (drainUntil deadline clock updates).taken.length → clock k < deadline := by
  fun_induction drainUntil deadline clock updates with
  | case1 => simp
  | case2 => simp
  | case3 clock u rest hgoes later ih =>
    rintro (_ | k) h
    · have hsome : rest ≠ [] := by
        rintro rfl
        simp [later, drainUntil] at h
      exact Nat.not_le.mp fun hdue ↦ hgoes ⟨hdue, hsome⟩
    · exact ih k (Nat.lt_of_succ_lt_succ h)

theorem take_drainUntil : updates.take (drainUntil deadline clock updates).taken.length =
    (drainUntil deadline clock updates).taken := by
  have happend := drainUntil_append deadline clock updates
  generalize drainUntil deadline clock updates = drained at happend ⊢
  rw [← happend, List.take_left]

theorem drop_drainUntil : updates.drop (drainUntil deadline clock updates).taken.length =
    (drainUntil deadline clock updates).left := by
  have happend := drainUntil_append deadline clock updates
  generalize drainUntil deadline clock updates = drained at happend ⊢
  rw [← happend, List.drop_left]

theorem length_drainUntil (deadline : Nat) (clock : Nat → Nat) (updates : List Update) :
    (drainUntil deadline clock updates).taken.length +
      (drainUntil deadline clock updates).left.length = updates.length := by
  rw [← List.length_append, drainUntil_append]

end Until

namespace Intake

variable {codec : Codec}

@[simp] theorem channel_apply (i : Intake) (u : Update) :
    (i.apply codec u).channel = i.channel := by
  rw [apply_tally]

theorem foldl_apply_tally (codec : Codec) (updates : List Update) (i : Intake) :
    updates.foldl (apply codec) i =
      { i with
        store := updates.foldl (Store.absorb codec) i.store
        tally := { i.tally with
          applied := i.tally.applied + updates.countP (·.decodes codec)
          failures := i.tally.failures + updates.countP (!·.decodes codec) } } := by
  induction updates generalizing i with
  | nil => rfl
  | cons u rest ih =>
    rw [List.foldl_cons, ih, apply_tally]
    cases h : u.decodes codec <;> simp [h, Nat.add_assoc, Nat.add_comm 1]

def recordHoldTimeout (i : Intake) : Intake :=
  { i with tally := { i.tally with holdTimeouts := i.tally.holdTimeouts + 1 } }

section Equations

variable {deadline : Nat} {clock : Nat → Nat} {i : Intake} {u : Update} {rest : List Update}

theorem drain_of_empty (h : i.channel = []) : i.drain codec deadline clock = i := by
  obtain ⟨capacity, pending, channel, store, tally⟩ := i
  obtain rfl : channel = [] := h
  rfl

theorem drain_of_due (h : i.channel = u :: rest) (hdue : deadline ≤ clock 0 ∧ rest ≠ []) :
    i.drain codec deadline clock =
      ({ i with channel := rest }.apply codec u).recordHoldTimeout := by
  have hcut : drainUntil deadline clock i.channel = ⟨[u], rest, true⟩ := by
    rw [h, drainUntil, if_pos hdue]
  simp [drain, hcut, recordHoldTimeout]

theorem drain_of_not_due (h : i.channel = u :: rest) (hgoes : ¬ (deadline ≤ clock 0 ∧ rest ≠ [])) :
    i.drain codec deadline clock =
      ({ i with channel := rest }.apply codec u).drain codec deadline fun k ↦ clock (k + 1) := by
  have hlater : drainUntil deadline clock i.channel =
      let later := drainUntil deadline (fun k ↦ clock (k + 1)) rest
      ⟨u :: later.taken, later.left, later.cut⟩ := by
    rw [h, drainUntil, if_neg hgoes]
  simp only [drain, hlater, List.foldl_cons, apply_tally]

end Equations

/-- A drain as a loop over the channel.  Returns the number of updates that have been taken, those
taken before among them. -/
def drainLoop (codec : Codec) (deadline : Nat) (readings : Nat → Nat) (taken : Nat) (i : Intake) :
    Nat × Intake :=
  match h : i.channel with
  | [] => (taken, i)
  | u :: rest =>
    let i := { i with channel := rest }.apply codec u
    if deadline ≤ readings taken ∧ rest ≠ [] then (taken + 1, i.recordHoldTimeout)
    else drainLoop codec deadline readings (taken + 1) i
termination_by i.channel.length
decreasing_by simp [h]

theorem drainLoop_eq (codec : Codec) (deadline : Nat) (readings : Nat → Nat) (taken : Nat)
    (i : Intake) :
    let clock := fun k ↦ readings (taken + k)
    i.drainLoop codec deadline readings taken =
      (taken + (drainUntil deadline clock i.channel).taken.length,
        i.drain codec deadline clock) := by
  fun_induction drainLoop codec deadline readings taken i with
  | case1 taken i h =>
    intro clock
    rw [drain_of_empty h, h]
    rfl
  | case2 taken i u rest h _ hdue =>
    intro clock
    have hcut : deadline ≤ clock 0 ∧ rest ≠ [] := hdue
    rw [drain_of_due h hcut, h, drainUntil, if_pos hcut]
    rfl
  | case3 taken i u rest h j hgoes ih =>
    intro clock
    have hrest : j.channel = rest := channel_apply _ u
    have hnext : (fun k ↦ readings (taken + 1 + k)) = fun k ↦ clock (k + 1) := by
      funext k
      simp only [clock, Nat.add_assoc, Nat.add_comm 1]
    have hon : ¬ (deadline ≤ clock 0 ∧ rest ≠ []) := hgoes
    simp only [hnext, hrest] at ih
    rw [drain_of_not_due h hon, h, drainUntil, if_neg hon, ih]
    refine Prod.ext ?_ rfl
    simp only [List.length_cons]
    omega

theorem drainLoop_zero (codec : Codec) (deadline : Nat) (readings : Nat → Nat) (i : Intake) :
    i.drainLoop codec deadline readings 0 =
      ((drainUntil deadline readings i.channel).taken.length,
        i.drain codec deadline readings) := by
  simpa using drainLoop_eq codec deadline readings 0 i

/-- A call as a loop, with the number of updates that it returns. -/
def drainCall? (codec : Codec) (call : DrainCall) (i : Intake) : Option (Nat × Intake) :=
  call.deadline?.map fun deadline ↦ i.drainLoop codec deadline call.readings 0

/-- What a call makes of an intake from which it takes `count` updates. -/
structure Progress (codec : Codec) (call : DrainCall) (i : Intake) (count : Nat) (j : Intake) :
    Prop where
  /-- The first updates of the channel are applied, in order, and nothing else is touched. -/
  result : j = { i with
    channel := i.channel.drop count
    store := (i.channel.take count).foldl (Store.absorb codec) i.store
    tally := { i.tally with
      applied := i.tally.applied + (i.channel.take count).countP (·.decodes codec)
      failures := i.tally.failures + (i.channel.take count).countP (!·.decodes codec)
      holdTimeouts := i.tally.holdTimeouts + if count < i.channel.length then 1 else 0 } }
  counted : count ≤ i.channel.length
  advances : i.channel ≠ [] → 1 ≤ count
  /-- The hold timeout is over, counted from the start of the call, when it leaves something. -/
  due : count < i.channel.length → call.clock 0 + call.hold.length ≤ call.clock count
  early : ∀ k, 1 ≤ k → k < count → call.clock k < call.clock 0 + call.hold.length

theorem drain_eq_take (codec : Codec) (deadline : Nat) (clock : Nat → Nat) (i : Intake) :
    let count := (drainUntil deadline clock i.channel).taken.length
    i.drain codec deadline clock = { i with
      channel := i.channel.drop count
      store := (i.channel.take count).foldl (Store.absorb codec) i.store
      tally := { i.tally with
        applied := i.tally.applied + (i.channel.take count).countP (·.decodes codec)
        failures := i.tally.failures + (i.channel.take count).countP (!·.decodes codec)
        holdTimeouts := i.tally.holdTimeouts + if count < i.channel.length then 1 else 0 } } := by
  intro count
  have hlength := length_drainUntil deadline clock i.channel
  have hless : count < i.channel.length ↔ (drainUntil deadline clock i.channel).cut = true := by
    rw [cut_drainUntil_iff, ← List.length_pos_iff]
    omega
  rw [take_drainUntil, drop_drainUntil, drain, foldl_apply_tally]
  by_cases hcut : (drainUntil deadline clock i.channel).cut = true
  · rw [if_pos hcut, if_pos (hless.mpr hcut)]
  · rw [if_neg hcut, if_neg (hless.not.mpr hcut)]
    rfl

section Calls

variable {call : DrainCall}

theorem progress_drain (codec : Codec) (call : DrainCall) (i : Intake) :
    let deadline := call.clock 0 + call.hold.length
    Progress codec call i (drainUntil deadline call.readings i.channel).taken.length
      (i.drain codec deadline call.readings) := by
  intro deadline
  have hlength := length_drainUntil deadline call.readings i.channel
  refine ⟨drain_eq_take codec _ _ i, Nat.le.intro hlength, ?_, ?_, ?_⟩
  · intro hsome
    exact List.length_pos_iff.mpr (taken_drainUntil_ne_nil hsome)
  · intro hless
    have hsome : i.channel ≠ [] := List.ne_nil_of_length_pos (Nat.zero_lt_of_lt hless)
    have hpos : 1 ≤ (drainUntil deadline call.readings i.channel).taken.length :=
      List.length_pos_iff.mpr (taken_drainUntil_ne_nil hsome)
    have hleft : (drainUntil deadline call.readings i.channel).left ≠ [] :=
      List.ne_nil_of_length_pos (by omega)
    have hdue := le_clock_of_left hleft
    rwa [DrainCall.readings, Nat.sub_add_cancel hpos] at hdue
  · intro k hpos hless
    obtain ⟨k, rfl⟩ := Nat.exists_eq_add_of_le' hpos
    exact clock_lt_of_taken k hless

theorem drainCall?_eq_none_iff {codec : Codec} {i : Intake} :
    i.drainCall? codec call = none ↔ Span.clockEnd ≤ call.clock 0 + call.hold.length := by
  rw [drainCall?, Option.map_eq_none_iff, DrainCall.deadline?, Span.deadline?_eq_none_iff]

/-- A call whose deadline the clock can show comes back, as a loop and as a function. -/
theorem exists_drainCall? (codec : Codec) (i : Intake)
    (hshown : call.clock 0 + call.hold.length < Span.clockEnd) :
    ∃ count j, i.drainCall? codec call = some (count, j) ∧ i.drain? codec call = some j ∧
      Progress codec call i count j := by
  have hdeadline : call.deadline? = some (call.clock 0 + call.hold.length) :=
    Span.deadline?_of_lt hshown
  refine ⟨_, _, ?_, ?_, progress_drain codec call i⟩
  · rw [drainCall?, hdeadline, Option.map_some, drainLoop_zero]
  · rw [drain?, hdeadline, Option.map_some]

theorem Progress.channel {i j : Intake} {count : Nat} (h : Progress codec call i count j) :
    j.channel = i.channel.drop count := by
  rw [h.result]

end Calls

/-- Calls one after another: what each of them takes, and the intake after them, unless one of them
breaks off. -/
def drainCalls? (codec : Codec) : Intake → List DrainCall → Option (List (List Update) × Intake)
  | i, [] => some ([], i)
  | i, call :: later => do
    let (count, j) ← i.drainCall? codec call
    let (takings, j) ← j.drainCalls? codec later
    return (i.channel.take count :: takings, j)

/-- Calls that come back take what is in the channel from its front, each of them an update or
more. -/
theorem exists_drainCalls? (codec : Codec) (i : Intake) (calls : List DrainCall)
    (hshown : ∀ call ∈ calls, call.clock 0 + call.hold.length < Span.clockEnd) :
    ∃ takings j, i.drainCalls? codec calls = some (takings, j) ∧
      takings.flatten ++ j.channel = i.channel ∧
      j.channel.length ≤ i.channel.length - calls.length := by
  induction calls generalizing i with
  | nil => exact ⟨[], i, rfl, rfl, Nat.le_refl _⟩
  | cons call later ih =>
    obtain ⟨hfirst, hlater⟩ := List.forall_mem_cons.mp hshown
    obtain ⟨count, j, hcall, -, hprogress⟩ := exists_drainCall? codec i hfirst
    obtain ⟨takings, k, hcalls, hflatten, hlength⟩ := ih j hlater
    refine ⟨i.channel.take count :: takings, k, ?_, ?_, ?_⟩
    · simp [drainCalls?, hcall, hcalls]
    · rw [List.flatten_cons, List.append_assoc, hflatten, hprogress.channel,
        List.take_append_drop]
    · have hadvances : i.channel.length ≠ 0 → 1 ≤ count :=
        fun hsome ↦ hprogress.advances (List.ne_nil_of_length_pos (Nat.pos_of_ne_zero hsome))
      rw [hprogress.channel, List.length_drop] at hlength
      rw [List.length_cons]
      omega

/-- A call of drain breaks off just if the clock cannot show the end of its hold timeout.  Otherwise
it applies the first updates of the channel, at least one if there is any, and returns how many.  It
leaves the others just if the hold timeout is over after an update that is not the last, stops
there, and counts it.  So a channel is empty after at most as many calls as it has updates, and what
they have taken is what was in it, in order. -/
theorem drain_gets_on (codec : Codec) (i : Intake) :
    (∀ call : DrainCall,
      (i.drainCall? codec call = none ↔ Span.clockEnd ≤ call.clock 0 + call.hold.length) ∧
        (call.clock 0 + call.hold.length < Span.clockEnd →
          ∃ count j, i.drainCall? codec call = some (count, j) ∧ i.drain? codec call = some j ∧
            Progress codec call i count j)) ∧
    ∀ calls : List DrainCall,
      (∀ call ∈ calls, call.clock 0 + call.hold.length < Span.clockEnd) →
        ∃ takings j, i.drainCalls? codec calls = some (takings, j) ∧
          takings.flatten ++ j.channel = i.channel ∧
          (i.channel.length ≤ calls.length → j.channel = [] ∧ takings.flatten = i.channel) := by
  refine ⟨fun call ↦ ⟨drainCall?_eq_none_iff, exists_drainCall? codec i⟩, ?_⟩
  intro calls hshown
  obtain ⟨takings, j, hcalls, hall, hleft⟩ := exists_drainCalls? codec i calls hshown
  refine ⟨takings, j, hcalls, hall, fun henough ↦ ?_⟩
  have hempty : j.channel = [] := List.eq_nil_of_length_eq_zero (by omega)
  rw [hempty, List.append_nil] at hall
  exact ⟨hempty, hall⟩

/-- Three withdrawals, each of which takes three milliseconds, with a hold timeout of five: the
drain stops after the second, when the clock reads six milliseconds more than at its start. -/
theorem slow_drain_cut :
    let i : Intake :=
      { capacity := 3, channel := [.deactivate "a", .deactivate "b", .deactivate "c"] }
    let call : DrainCall := ⟨.ofMillis 5, fun k ↦ 7000000 + k * 3000000⟩
    call.clock 0 + call.hold.length < Span.clockEnd ∧
      (∃ j, i.drainCall? .json call = some (2, j) ∧ j.channel = [.deactivate "c"] ∧
        j.store.inactiveKeys = ["a", "b"] ∧ j.tally.holdTimeouts = 1) ∧
      ∃ takings j, i.drainCalls? .json [call, call, call] = some (takings, j) ∧
        j.channel = [] ∧ takings.flatten = i.channel := by
  intro i call
  have hshown : call.clock 0 + call.hold.length < Span.clockEnd := by decide
  obtain ⟨hcalls, hrepeated⟩ := drain_gets_on .json i
  refine ⟨hshown, ?_, ?_⟩
  · obtain ⟨count, j, hcall, -, hprogress⟩ := (hcalls call).2 hshown
    have hmost : count ≤ 2 := Nat.not_lt.mp fun hmore ↦
      absurd (hprogress.early 2 (by decide) hmore) (by decide)
    have hleast : 2 ≤ count := Nat.not_lt.mp fun hless ↦ by
      have hdeadline : call.clock 0 + call.hold.length = 12000000 := by decide
      have hdue : 12000000 ≤ 7000000 + count * 3000000 :=
        hdeadline ▸ hprogress.due (Nat.lt_trans hless (by decide))
      omega
    obtain rfl : count = 2 := Nat.le_antisymm hmost hleast
    refine ⟨j, hcall, ?_, ?_, ?_⟩ <;> rw [hprogress.result]
    · rfl
    · decide +kernel
    · rfl
  · obtain ⟨takings, j, hthrice, -, hemptied⟩ :=
      hrepeated [call, call, call] (by simpa using hshown)
    exact ⟨takings, j, hthrice, hemptied (by decide)⟩

/-- A drain that may hold the task for ever takes nothing at all. -/
theorem endless_drain_breaks_off :
    let i : Intake := { capacity := 1, channel := [.deactivate "a"] }
    let call : DrainCall := ⟨.longest, fun _ ↦ 0⟩
    i.channel ≠ [] ∧
      ¬ ∃ count j, i.drainCall? .json call = some (count, j) ∧ 1 ≤ count := by
  intro i call
  have hnone : i.drainCall? .json call = none := by
    rw [drainCall?_eq_none_iff]
    decide
  rw [hnone]
  refine ⟨by decide, ?_⟩
  rintro ⟨count, j, hsome, -⟩
  cases hsome

end Intake

end TicketPool

import TicketPool.Proofs.Store.Presence

/-!
# Between two writes

Readers may look at a store while an update or a sweep is carried out, so a run is stopped here
after any number of its single writes.  The keys of a pass come up in no particular order.
Wherever a run is stopped, a ticket that is active has been activated since it was created.
-/

namespace TicketPool

/-- An order in which the keys of a pass may come up. -/
structure Shuffle where
  arrange : List String → List String
  perm : ∀ keys, (arrange keys).Perm keys

namespace Shuffle

def identity : Shuffle := ⟨id, fun _ ↦ .rfl⟩

def backwards : Shuffle := ⟨List.reverse, List.reverse_perm⟩

theorem mem_arrange (o : Shuffle) (keys : List String) (key : String) :
    key ∈ o.arrange keys ↔ key ∈ keys :=
  (o.perm keys).mem_iff

end Shuffle

structure SweepOrder where
  aged : Shuffle
  expired : Shuffle
  assignments : Shuffle

namespace Store

def agedWritesIn (o : SweepOrder) (rule : SweepRule) (s : Store) : List Write :=
  (o.aged.arrange (s.agedKeys rule)).flatMap fun key ↦ [.dropTicket key, .unmark key]

def expiredWritesIn (o : SweepOrder) (rule : SweepRule) (s : Store) : List Write :=
  (o.expired.arrange (s.expiredKeys rule)).map .dropTicket

def assignmentWritesIn (o : SweepOrder) (rule : SweepRule) (s : Store) : List Write :=
  (o.assignments.arrange (s.agedAssignments rule)).map .dropAssignment

def sweepWritesIn (o : SweepOrder) (rule : SweepRule) (s : Store) : List Write :=
  s.agedWritesIn o rule ++ (s.afterAged rule).expiredWritesIn o rule ++
    (s.afterExpired rule).assignmentWritesIn o rule

variable (o : SweepOrder) (rule : SweepRule) (s : Store) {codec : Codec}

theorem performAll_append (first second : List Write) :
    s.performAll (first ++ second) = (s.performAll first).performAll second :=
  List.foldl_append

theorem performAll_agedWritesIn : s.performAll (s.agedWritesIn o rule) = s.afterAged rule := by
  apply eq_of_view
  intro key
  rw [afterAged, view_performAll, view_performAll, agedWritesIn, agedWrites,
    KeyView.foldl_write_withdraw, KeyView.foldl_write_withdraw]
  simp only [Shuffle.mem_arrange]

theorem performAll_expiredWritesIn :
    s.performAll (s.expiredWritesIn o rule) = s.performAll (s.expiredWrites rule) := by
  apply eq_of_view
  intro key
  rw [view_performAll, view_performAll, expiredWritesIn, expiredWrites,
    KeyView.foldl_write_dropTicket, KeyView.foldl_write_dropTicket]
  simp only [Shuffle.mem_arrange]

theorem performAll_assignmentWritesIn :
    s.performAll (s.assignmentWritesIn o rule) = s.performAll (s.assignmentWrites rule) := by
  apply eq_of_view
  intro key
  rw [view_performAll, view_performAll, assignmentWritesIn, assignmentWrites,
    KeyView.foldl_write_dropAssignment, KeyView.foldl_write_dropAssignment]
  simp only [Shuffle.mem_arrange]

/-- In whatever order the keys come up, a sweep leaves the same store. -/
theorem performAll_sweepWritesIn : s.performAll (s.sweepWritesIn o rule) = s.sweep rule := by
  calc
    s.performAll (s.sweepWritesIn o rule) =
        (s.afterExpired rule).performAll ((s.afterExpired rule).assignmentWritesIn o rule) := by
      rw [sweepWritesIn, performAll_append, performAll_append, performAll_agedWritesIn,
        performAll_expiredWritesIn, ← afterExpired]
    _ = (s.afterExpired rule).performAll ((s.afterExpired rule).assignmentWrites rule) :=
      performAll_assignmentWritesIn o rule (s.afterExpired rule)
    _ = s.sweep rule := by
      rw [sweep, sweepWrites, performAll_append, performAll_append, ← afterAged, ← afterExpired]

def stepWrites (codec : Codec) (s : Store) (o : SweepOrder) : StoreStep → List Write
  | .update u => (u.writes codec).toOption.getD []
  | .sweep rule => s.sweepWritesIn o rule

theorem performAll_stepWrites (op : StoreStep) :
    s.performAll (s.stepWrites codec o op) = s.step codec op := by
  cases op with
  | update u =>
    rw [stepWrites, step, absorb, apply]
    cases u.writes codec <;> rfl
  | sweep rule => exact performAll_sweepWritesIn o rule s

/-- The writes of a run, each step with the order of its sweep. -/
def runWrites (codec : Codec) : Store → List (StoreStep × SweepOrder) → List Write
  | _, [] => []
  | s, (op, o) :: rest => s.stepWrites codec o op ++ (s.step codec op).runWrites codec rest

/-- The steps of a run that have been begun when so many writes have been made. -/
def begun (codec : Codec) : Store → List (StoreStep × SweepOrder) → Nat → List StoreStep
  | _, [], _ => []
  | _, _ :: _, 0 => []
  | s, (op, o) :: rest, n + 1 =>
    op :: (s.step codec op).begun codec rest (n + 1 - (s.stepWrites codec o op).length)

end Store

namespace KeyView

def IsActive (v : KeyView) : Prop :=
  v.ticket ≠ none ∧ v.marked = false

/-- However far a list of writes is carried out, the key keeps its ticket and its mark as they
are, or has lost the ticket. -/
def Withdrawing (key : String) (writes : List Write) : Prop :=
  ∀ v n, ((writes.take n).foldl (write key) v).ticket = none ∨
    ((writes.take n).foldl (write key) v).ticket = v.ticket ∧
      ((writes.take n).foldl (write key) v).marked = v.marked

section Withdrawing

variable {key : String} {first second : List Write}

theorem Withdrawing.append (hfirst : Withdrawing key first) (hsecond : Withdrawing key second) :
    Withdrawing key (first ++ second) := by
  intro v n
  rw [List.take_append, List.foldl_append]
  rcases hsecond ((first.take n).foldl (write key) v) (n - first.length) with hlost | ⟨ht, hm⟩
  · exact .inl hlost
  · rw [ht, hm]
    exact hfirst v n

theorem Withdrawing.flatMap {writes : String → List Write}
    (hwrites : ∀ k, Withdrawing key (writes k)) (keys : List String) :
    Withdrawing key (keys.flatMap writes) := by
  induction keys with
  | nil => exact fun v n ↦ .inr (by simp)
  | cons k rest ih =>
    rw [List.flatMap_cons]
    exact (hwrites k).append ih

theorem withdrawing_pair (k : String) : Withdrawing key [.dropTicket k, .unmark k] := by
  intro v n
  match n with
  | 0 => exact .inr ⟨rfl, rfl⟩
  -- between the two writes the ticket is gone and its mark is still there
  | 1 => by_cases hk : k = key <;> simp [write, hk]
  | n + 2 => by_cases hk : k = key <;> simp [write, hk]

theorem withdrawing_dropTicket (k : String) : Withdrawing key [.dropTicket k] := by
  intro v n
  cases n with
  | zero => exact .inr ⟨rfl, rfl⟩
  | succ n => by_cases hk : k = key <;> simp [write, hk]

theorem withdrawing_dropAssignment (k : String) : Withdrawing key [.dropAssignment k] := by
  intro v n
  cases n with
  | zero => exact .inr ⟨rfl, rfl⟩
  | succ n => by_cases hk : k = key <;> simp [write, hk]

theorem withdrawing_sweepWritesIn (o : SweepOrder) (rule : SweepRule) (s : Store) :
    Withdrawing key (s.sweepWritesIn o rule) := by
  refine (Withdrawing.append ?_ ?_).append ?_
  · exact Withdrawing.flatMap withdrawing_pair _
  · rw [Store.expiredWritesIn, List.map_eq_flatMap]
    exact Withdrawing.flatMap withdrawing_dropTicket _
  · rw [Store.assignmentWritesIn, List.map_eq_flatMap]
    exact Withdrawing.flatMap withdrawing_dropAssignment _

end Withdrawing

/-- Once an update has made its first write, a ticket is active only if the update activates it,
or if it is of no concern to the update. -/
theorem active_of_update {codec : Codec} {key : String} {v : KeyView} {u : Update} {n : Nat}
    (h : ((((u.writes codec).toOption.getD []).take (n + 1)).foldl (write key) v).IsActive) :
    v.ticket ≠ none ∧ (u.commandFor? codec key = some .activate ∨
      u.commandFor? codec key = none ∧ v.marked = false) := by
  obtain ⟨command, k, value⟩ := u
  by_cases hk : k = key
  · cases command with
    | createTicket =>
      cases hpayload : codec.decodeTicket value with
      | error e => simpa [Update.writes, Update.commandFor?, hpayload, Except.map, Except.toOption,
          IsActive, hk] using h
      | ok ticket =>
        -- the mark stands from the first write on
        cases n <;> simp [Update.writes, hpayload, Except.map, Except.toOption, IsActive, write,
          hk] at h
    | activate =>
      refine ⟨?_, .inl (by simp [Update.commandFor?, hk])⟩
      simpa [Update.writes, Except.toOption, IsActive, write, hk] using h
    | deactivate =>
      simp [Update.writes, Except.toOption, IsActive, write, hk] at h
    | assign =>
      cases hpayload : codec.decodeAssignment value <;>
        simpa [Update.writes, Update.commandFor?, hpayload, Except.map, Except.toOption,
          IsActive, write, hk] using h
  · have hnone : Update.commandFor? codec key ⟨command, k, value⟩ = none := by
      simp [Update.commandFor?, hk]
    have hkept : v.IsActive := by
      cases command with
      | createTicket =>
        cases hpayload : codec.decodeTicket value <;> cases n <;>
          simpa [Update.writes, hpayload, Except.map, Except.toOption, write, hk] using h
      | activate => simpa [Update.writes, Except.toOption, write, hk] using h
      | deactivate => simpa [Update.writes, Except.toOption, write, hk] using h
      | assign =>
        cases hpayload : codec.decodeAssignment value <;>
          simpa [Update.writes, hpayload, Except.map, Except.toOption, write, hk] using h
    exact ⟨hkept.1, .inr ⟨hnone, hkept.2⟩⟩

end KeyView

namespace StoreStep

/-- A ticket was created for the key and activated later, and since then neither was another
created nor this one withdrawn. -/
def Activated (codec : Codec) (key : String) (steps : List StoreStep) : Prop :=
  ∃ before value after, steps = before ++ .update ⟨.activate, key, value⟩ :: after ∧
    (∃ u ∈ updates before, ∃ ticket, u.ticketFor? codec key = some ticket) ∧
    ∀ u ∈ updates after, u.ticketFor? codec key = none ∧
      ¬ (u.command = .deactivate ∧ u.key = key)

theorem activated_of_last {codec : Codec} {key : String} {steps : List StoreStep}
    (hticket : lastTicket codec key steps ≠ none)
    (hcommand : lastCommand codec key steps = some .activate) : Activated codec key steps := by
  obtain ⟨before, u, after, rfl, hu, hafter⟩ := exists_split_of_lastOf hcommand
  obtain ⟨rfl, hactivate⟩ := Update.activates_of_commandFor? hu
  refine ⟨before, u.value, after, ?_, ?_, ?_⟩
  · rw [← hactivate]
  · by_contra hnone
    push Not at hnone
    refine hticket (lastOf_eq_none_iff.mpr fun v hv ↦ ?_)
    rw [updates_append] at hv
    rcases List.mem_append.mp hv with hbefore | hrest
    · exact Option.eq_none_iff_forall_ne_some.mpr (hnone v hbefore)
    · rcases List.mem_cons.mp hrest with rfl | hlater
      · simp [Update.ticketFor?, hactivate]
      · exact Update.ticketFor?_of_commandFor? (hafter v hlater)
  · intro v hv
    refine ⟨Update.ticketFor?_of_commandFor? (hafter v hv), ?_⟩
    rintro ⟨hdeactivate, hkey⟩
    have hnone := hafter v hv
    simp [Update.commandFor?, hdeactivate, hkey] at hnone

end StoreStep

namespace Store

open StoreStep

variable {codec : Codec} {key : String}

theorem isActive_iff_view (s : Store) : s.isActive key = true ↔ (s.view key).IsActive := by
  rw [isActive_iff, containsTicket_iff, Bool.not_eq_true, ← Option.ne_none_iff_exists']
  rfl

theorem last_of_isActive_run {steps : List StoreStep}
    (h : ((empty.run codec steps).view key).IsActive) :
    lastTicket codec key steps ≠ none ∧ lastCommand codec key steps = some .activate := by
  obtain ⟨ticket, hticket⟩ := Option.ne_none_iff_exists'.mp h.1
  have hlast := (ticket_run steps ticket).mp hticket
  have hstanding : Standing codec key steps := standing_iff.mpr ⟨ticket, hlast⟩
  have hmarked : ¬ ((empty.run codec steps).view key).marked = true := by simp [h.2]
  exact ⟨by simp [hlast.1], (not_marked_iff_of_standing hstanding).mp hmarked⟩

/-- A step of which one write or more has been made counts among those that came before. -/
theorem last_of_isActive_step {past : List StoreStep} {op : StoreStep} {o : SweepOrder} {n : Nat}
    (h : ((((empty.run codec past).performAll
      (((empty.run codec past).stepWrites codec o op).take (n + 1))).view key).IsActive)) :
    lastTicket codec key (past ++ [op]) ≠ none ∧
      lastCommand codec key (past ++ [op]) = some .activate := by
  rw [view_performAll] at h
  cases op with
  | update u =>
    obtain ⟨hticket, hactive | ⟨hnone, hmarked⟩⟩ := KeyView.active_of_update h
    · obtain ⟨ticket, hstored⟩ := Option.ne_none_iff_exists'.mp hticket
      have hlast : lastTicket codec key past = some ticket := ((ticket_run past ticket).mp hstored).1
      rw [lastTicket, lastOf_update, lastCommand, lastOf_update, hactive]
      refine ⟨?_, rfl⟩
      rw [lastTicket] at hlast
      rw [hlast]
      cases u.ticketFor? codec key <;> simp
    · have hbefore : lastTicket codec key past ≠ none ∧
          lastCommand codec key past = some .activate :=
        last_of_isActive_run ⟨hticket, hmarked⟩
      rw [lastTicket, lastOf_update, Update.ticketFor?_of_commandFor? hnone, lastCommand,
        lastOf_update, hnone, Option.none_or, Option.none_or]
      exact hbefore
  | sweep rule =>
    rcases KeyView.withdrawing_sweepWritesIn o rule (empty.run codec past)
      ((empty.run codec past).view key) (n + 1) with hlost | ⟨hticket, hmarked⟩
    · exact absurd hlost h.1
    · have hbefore : ((empty.run codec past).view key).IsActive :=
        ⟨hticket ▸ h.1, hmarked ▸ h.2⟩
      rw [lastTicket, lastOf_sweep, lastCommand, lastOf_sweep]
      exact last_of_isActive_run hbefore

theorem begun_zero (s : Store) (run : List (StoreStep × SweepOrder)) :
    s.begun codec run 0 = [] := by
  cases run <;> rfl

theorem last_of_isActive_stopped (past : List StoreStep) (run : List (StoreStep × SweepOrder))
    (n : Nat)
    (h : (((empty.run codec past).performAll
      (((empty.run codec past).runWrites codec run).take n)).view key).IsActive) :
    lastTicket codec key (past ++ (empty.run codec past).begun codec run n) ≠ none ∧
      lastCommand codec key (past ++ (empty.run codec past).begun codec run n) =
        some .activate := by
  induction run generalizing past n with
  | nil =>
    rw [runWrites, List.take_nil] at h
    rw [begun, List.append_nil]
    exact last_of_isActive_run h
  | cons entry rest ih =>
    obtain ⟨op, o⟩ := entry
    cases n with
    | zero =>
      rw [begun, List.append_nil]
      exact last_of_isActive_run h
    | succ n =>
      have hnext : (empty.run codec past).step codec op = empty.run codec (past ++ [op]) := by
        rw [run, run, List.foldl_append]
        rfl
      rw [runWrites, List.take_append, performAll_append] at h
      rw [begun, List.append_cons]
      rcases Nat.le_total (n + 1) ((empty.run codec past).stepWrites codec o op).length with hin | hout
      · -- stopped within this step
        rw [Nat.sub_eq_zero_of_le hin, List.take_zero] at h
        rw [Nat.sub_eq_zero_of_le hin, begun_zero, List.append_nil]
        exact last_of_isActive_step h
      · -- this step has made all its writes
        rw [List.take_of_length_le hout, performAll_stepWrites, hnext] at h
        rw [hnext]
        exact ih _ _ h

/-- Wherever a run is stopped between two writes, a ticket that is active was activated after it
was created, and not withdrawn since. -/
theorem activated_of_isActive_stopped (codec : Codec) (run : List (StoreStep × SweepOrder))
    (n : Nat) (key : String)
    (hactive : (empty.performAll ((empty.runWrites codec run).take n)).isActive key = true) :
    Activated codec key (empty.begun codec run n) := by
  rw [isActive_iff_view] at hactive
  obtain ⟨hticket, hcommand⟩ := last_of_isActive_stopped [] run n hactive
  exact activated_of_last hticket hcommand

/-- An aged ticket is withdrawn by a sweep, and another is activated and then created again. -/
def renewal : List (StoreStep × SweepOrder) :=
  let order : SweepOrder := ⟨.backwards, .identity, .backwards⟩
  let payload := "\x7b\"expiration_time\":\"2030-01-01T00:00:00Z\"\x7d"
  let sweep : SweepRule := ⟨.ofMillis 1700000100000, .ofMillis 600000, .ofMillis 1200000⟩
  [.update ⟨.createTicket, "1600000000000-0", payload⟩,
    .update ⟨.createTicket, "1700000000000-0", payload⟩,
    .update (.activate "1700000000000-0"), .sweep sweep,
    .update ⟨.createTicket, "1700000000000-0", payload⟩].map fun op ↦ (op, order)

/-- Stopped between the two writes by which the sweep withdraws the aged ticket. -/
theorem renewal_stopped_in_sweep :
    (empty.performAll ((empty.runWrites .json renewal).take 6)).isActive "1700000000000-0" = true ∧
      (empty.performAll ((empty.runWrites .json renewal).take 6)).isInactive "1600000000000-0" =
        true ∧
      Activated .json "1700000000000-0" (empty.begun .json renewal 6) := by
  have hactive : (empty.performAll ((empty.runWrites .json renewal).take 6)).isActive
      "1700000000000-0" = true := by decide +kernel
  refine ⟨hactive, ?_, activated_of_isActive_stopped .json renewal 6 "1700000000000-0" hactive⟩
  decide +kernel

/-- Stopped between the two writes of the second creation, the ticket is already inactive. -/
example : (empty.performAll ((empty.runWrites .json renewal).take 8)).isActive
    "1700000000000-0" = false := by decide +kernel

end Store

end TicketPool

import TicketPool.Store.Digest
import TicketPool.Store.Sweep

/-!
# What a store knows of a key

A store is all that it knows of each key: a ticket, a mark and an assignment.  Updates and
sweeps act on every key for itself, so a run of a store can be followed key by key.
-/

namespace TicketPool

inductive StoreStep where
  | update (u : Update)
  | sweep (rule : SweepRule)

/-- What a store knows of one key. -/
@[ext]
structure KeyView where
  ticket : Option Ticket := none
  marked : Bool := false
  assignment : Option Assignment := none

namespace KeyView

def write (key : String) (v : KeyView) : Write → KeyView
  | .mark k => if k = key then { v with marked := true } else v
  | .unmark k => if k = key then { v with marked := false } else v
  | .putTicket k ticket => if k = key then { v with ticket := some ticket } else v
  | .dropTicket k => if k = key then { v with ticket := none } else v
  | .putAssignment k assignment => if k = key then { v with assignment := some assignment } else v
  | .dropAssignment k => if k = key then { v with assignment := none } else v

/-- What an update of the key changes. -/
def absorb (codec : Codec) (v : KeyView) (u : Update) : KeyView :=
  match u.command with
  | .createTicket =>
    match codec.decodeTicket u.value with
    | .ok ticket => { v with ticket := some { ticket with id := u.key }, marked := true }
    | .error _ => v
  | .activate => { v with marked := false }
  | .deactivate => { v with marked := true }
  | .assign =>
    match codec.decodeAssignment u.value with
    | .ok assignment => { v with assignment := some assignment }
    | .error _ => v

def sweep (rule : SweepRule) (key : String) (v : KeyView) : KeyView where
  ticket :=
    if v.marked ∧ isAged rule.now.millis rule.ticketTtl.millis key then none
    else v.ticket.filter fun t ↦ !t.isExpiredAt rule.now
  marked := v.marked && !isAged rule.now.millis rule.ticketTtl.millis key
  assignment :=
    if isAged rule.now.millis rule.assignmentTtl.millis key then none else v.assignment

def step (codec : Codec) (key : String) (v : KeyView) : StoreStep → KeyView
  | .update u => if u.key = key then v.absorb codec u else v
  | .sweep rule => v.sweep rule key

end KeyView

namespace Store

/-- The store after an update.  A payload that cannot be decoded changes nothing. -/
def absorb (codec : Codec) (s : Store) (u : Update) : Store :=
  (s.apply codec u).toOption.getD s

def step (codec : Codec) (s : Store) : StoreStep → Store
  | .update u => s.absorb codec u
  | .sweep rule => s.sweep rule

def run (codec : Codec) (s : Store) (steps : List StoreStep) : Store :=
  steps.foldl (step codec) s

def view (s : Store) (key : String) : KeyView where
  ticket := s.ticket? key
  marked := s.isInactive key
  assignment := s.assignment? key

variable {s t : Store} {key : String} {codec : Codec}

theorem eq_of_view (h : ∀ key, s.view key = t.view key) : s = t := by
  have htickets : s.tickets = t.tickets :=
    Std.ExtTreeMap.ext_getElem? fun key ↦ congrArg KeyView.ticket (h key)
  have hassignments : s.assignments = t.assignments :=
    Std.ExtTreeMap.ext_getElem? fun key ↦ congrArg KeyView.assignment (h key)
  have hinactive : s.inactive = t.inactive := by
    apply Std.ExtTreeMap.ext_mem_unit
    intro key
    have hmarked : s.inactive.contains key = t.inactive.contains key :=
      congrArg KeyView.marked (h key)
    rw [Std.ExtTreeMap.mem_iff_contains, Std.ExtTreeMap.mem_iff_contains, hmarked]
  cases s
  cases t
  simp_all

theorem view_perform (s : Store) (w : Write) (key : String) :
    (s.perform w).view key = (s.view key).write key w := by
  cases w <;> simp only [perform, view, KeyView.write, ticket?, isInactive, assignment?] <;>
    split <;> simp_all [Std.ExtTreeMap.getElem?_insert, Std.ExtTreeMap.getElem?_erase]

theorem view_performAll (s : Store) (writes : List Write) (key : String) :
    (s.performAll writes).view key = writes.foldl (KeyView.write key) (s.view key) := by
  induction writes generalizing s with
  | nil => rfl
  | cons w rest ih =>
    rw [List.foldl_cons, ← view_perform]
    exact ih (s.perform w)

end Store

namespace KeyView

variable {key : String}

/-- Writes that change each key of a list, and no other key. -/
theorem foldl_write_flatMap {writes : String → List Write} (change : KeyView → KeyView)
    (hwrites : ∀ k v, (writes k).foldl (write key) v = if k = key then change v else v)
    (hagain : ∀ v, change (change v) = change v) (keys : List String) (v : KeyView) :
    (keys.flatMap writes).foldl (write key) v = if key ∈ keys then change v else v := by
  induction keys generalizing v with
  | nil => rfl
  | cons k rest ih =>
    rw [List.flatMap_cons, List.foldl_append, hwrites, ih]
    by_cases hk : k = key
    · simp [hk, hagain]
    · simp [hk, Ne.symm hk]

theorem foldl_write_withdraw (keys : List String) (v : KeyView) :
    (keys.flatMap fun k ↦ [.dropTicket k, .unmark k]).foldl (write key) v =
      if key ∈ keys then { v with ticket := none, marked := false } else v := by
  refine foldl_write_flatMap (fun v ↦ { v with ticket := none, marked := false }) ?_ ?_ keys v
  · intro k v
    by_cases hk : k = key <;> simp [write, hk]
  · intro v
    rfl

theorem foldl_write_dropTicket (keys : List String) (v : KeyView) :
    (keys.map .dropTicket).foldl (write key) v =
      if key ∈ keys then { v with ticket := none } else v := by
  rw [List.map_eq_flatMap]
  exact foldl_write_flatMap (fun v ↦ { v with ticket := none }) (fun _ _ ↦ rfl)
    (fun _ ↦ rfl) keys v

theorem foldl_write_dropAssignment (keys : List String) (v : KeyView) :
    (keys.map .dropAssignment).foldl (write key) v =
      if key ∈ keys then { v with assignment := none } else v := by
  rw [List.map_eq_flatMap]
  exact foldl_write_flatMap (fun v ↦ { v with assignment := none }) (fun _ _ ↦ rfl)
    (fun _ ↦ rfl) keys v

end KeyView

namespace Store

variable {s : Store} {key : String} {codec : Codec} {rule : SweepRule}

theorem mem_agedKeys :
    key ∈ s.agedKeys rule ↔
      (s.view key).marked = true ∧
        isAged rule.now.millis rule.ticketTtl.millis key = true := by
  simp [agedKeys, inactiveKeys, Std.ExtTreeMap.map_fst_toList_eq_keys, view, isInactive]

theorem mem_expiredKeys :
    key ∈ s.expiredKeys rule ↔
      ∃ ticket, (s.view key).ticket = some ticket ∧ ticket.isExpiredAt rule.now = true := by
  simp [expiredKeys, Std.ExtTreeMap.mem_toList_iff_getElem?_eq_some, view, ticket?]

theorem mem_agedAssignments :
    key ∈ s.agedAssignments rule ↔
      (s.view key).assignment.isSome = true ∧
        isAged rule.now.millis rule.assignmentTtl.millis key = true := by
  simp [agedAssignments, Std.ExtTreeMap.map_fst_toList_eq_keys, view, assignment?]

theorem view_afterAged (rule : SweepRule) (s : Store) (key : String) :
    (s.afterAged rule).view key =
      if (s.view key).marked ∧ isAged rule.now.millis rule.ticketTtl.millis key then
        { s.view key with ticket := none, marked := false }
      else s.view key := by
  rw [afterAged, view_performAll, agedWrites, KeyView.foldl_write_withdraw]
  simp only [mem_agedKeys]

theorem view_afterExpired (rule : SweepRule) (s : Store) (key : String) :
    (s.afterExpired rule).view key =
      { (s.afterAged rule).view key with
        ticket := ((s.afterAged rule).view key).ticket.filter fun t ↦
          !t.isExpiredAt rule.now } := by
  rw [afterExpired, view_performAll, expiredWrites, KeyView.foldl_write_dropTicket]
  simp only [mem_expiredKeys]
  obtain ⟨ticket, marked, assignment⟩ := (s.afterAged rule).view key
  cases ticket with
  | none => simp
  | some ticket =>
    by_cases hover : ticket.isExpiredAt rule.now = true <;> simp [Option.filter, hover]

theorem view_sweep (rule : SweepRule) (s : Store) (key : String) :
    (s.sweep rule).view key = (s.view key).sweep rule key := by
  have hsweep : s.sweep rule =
      (s.afterExpired rule).performAll ((s.afterExpired rule).assignmentWrites rule) := by
    simp only [sweep, sweepWrites, performAll, List.foldl_append, afterExpired, afterAged]
  rw [hsweep, view_performAll, assignmentWrites, KeyView.foldl_write_dropAssignment]
  simp only [mem_agedAssignments, view_afterExpired, view_afterAged, KeyView.sweep]
  obtain ⟨ticket, marked, assignment⟩ := s.view key
  by_cases haged : isAged rule.now.millis rule.ticketTtl.millis key = true <;>
    by_cases hover : isAged rule.now.millis rule.assignmentTtl.millis key = true <;>
    cases marked <;> cases assignment <;> simp [haged, hover]

theorem view_absorb (s : Store) (u : Update) (key : String) :
    (s.absorb codec u).view key =
      if u.key = key then (s.view key).absorb codec u else s.view key := by
  unfold absorb apply Update.writes KeyView.absorb
  cases u.command with
  | createTicket =>
    cases codec.decodeTicket u.value with
    | error e => simp [Except.map, Except.toOption]
    | ok ticket =>
      by_cases hkey : u.key = key <;>
        simp [Except.map, Except.toOption, view_performAll, KeyView.write, hkey]
  | activate =>
    by_cases hkey : u.key = key <;>
      simp [Except.map, Except.toOption, view_performAll, KeyView.write, hkey]
  | deactivate =>
    by_cases hkey : u.key = key <;>
      simp [Except.map, Except.toOption, view_performAll, KeyView.write, hkey]
  | assign =>
    cases codec.decodeAssignment u.value with
    | error e => simp [Except.map, Except.toOption]
    | ok assignment =>
      by_cases hkey : u.key = key <;>
        simp [Except.map, Except.toOption, view_performAll, KeyView.write, hkey]

theorem view_step (s : Store) (op : StoreStep) (key : String) :
    (s.step codec op).view key = (s.view key).step codec key op := by
  cases op with
  | update u => exact view_absorb s u key
  | sweep rule => exact view_sweep rule s key

/-- What a run leaves of a key depends on nothing but what was there of that key. -/
theorem view_run (s : Store) (steps : List StoreStep) (key : String) :
    (s.run codec steps).view key = steps.foldl (KeyView.step codec key) (s.view key) := by
  induction steps generalizing s with
  | nil => rfl
  | cons op rest ih =>
    rw [List.foldl_cons, ← view_step]
    exact ih (s.step codec op)

end Store

end TicketPool

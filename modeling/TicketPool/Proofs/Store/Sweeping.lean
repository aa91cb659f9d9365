import Mathlib.Data.List.Perm.Basic
import TicketPool.Proofs.Store.Convergence
import TicketPool.Proofs.Store.Presence

/-!
# What a sweep drops

A sweep drops the entries that are too old and keeps all others as they are.  Its three passes
count what they find, each in the store that the one before left, and the counts of a map add up
to its size.  A second sweep at the same time finds nothing.
-/

namespace TicketPool

/-- Whether a key is older at an instant than a span: the millisecond that it names lies further
back.  No instant counts as earlier than 1970, and no span as longer than a word can say. -/
def IsPast (now : Instant) (ttl : Span) (key : String) : Prop :=
  ∃ born, LogId.creationMillis? key = some born ∧
    min (ttl.secs.toNat * 1000 + ttl.nanos / 1000000) (UInt64.size - 1) <
      (now.secs * 1000 + (now.nanos / 1000000 : Nat)).toNat - born.toNat

theorem Span.toNat_millis (d : Span) :
    d.millis.toNat = min (d.secs.toNat * 1000 + d.nanos / 1000000) (UInt64.size - 1) := by
  rw [millis, UInt64.toNat_ofNat']
  apply Nat.mod_eq_of_lt
  exact Nat.lt_of_le_of_lt (Nat.min_le_right _ _) (by decide)

theorem isAged_iff_isPast {now : Instant} {ttl : Span} {key : String} :
    isAged now.millis ttl.millis key = true ↔ IsPast now ttl key := by
  rw [isAged_iff, IsPast]
  simp only [UInt64.lt_iff_toNat_lt, toNat_monus, Instant.toNat_millis, Span.toNat_millis]

/-- Keys that name no millisecond never age, nor do those that name one to come. -/
theorem not_isPast_of_le {now : Instant} {ttl : Span} {key : String}
    (h : ∀ born, LogId.creationMillis? key = some born → now.millis ≤ born) :
    ¬ IsPast now ttl key := by
  rintro ⟨born, hborn, hpast⟩
  have hlater := UInt64.le_iff_toNat_le.mp (h born hborn)
  rw [Instant.toNat_millis] at hlater
  omega

namespace Store

section Entries

variable {α : Type} {m left : StringMap α} {kept : String → α → Bool}

/-- What is left of a map is listed in the order in which it stood there. -/
theorem toList_eq_filter
    (h : ∀ key a, left[key]? = some a ↔ m[key]? = some a ∧ kept key a = true) :
    left.toList = m.toList.filter fun p ↦ kept p.1 p.2 := by
  have hfilter : left = m.filter kept := by
    apply Std.ExtTreeMap.ext_getElem?
    intro key
    rw [Option.ext_iff]
    intro a
    rw [h, Std.ExtTreeMap.getElem?_filter, Option.pfilter_eq_some_iff]
    simp
  rw [hfilter, Std.ExtTreeMap.toList_filter]

theorem length_filter_add_size
    (h : ∀ key a, left[key]? = some a ↔ m[key]? = some a ∧ kept key a = true) :
    (m.toList.filter fun p ↦ !kept p.1 p.2).length + left.size = m.size := by
  rw [← Std.ExtTreeMap.length_toList, ← Std.ExtTreeMap.length_toList, toList_eq_filter h,
    Nat.add_comm]
  exact (List.length_eq_length_filter_add _).symm

end Entries

variable (rule : SweepRule) (s : Store)

/-- Whether the first pass takes the ticket of a key. -/
def withdraws (key : String) : Bool :=
  s.isInactive key && isAged rule.now.millis rule.ticketTtl.millis key

theorem withdraws_iff {key : String} :
    s.withdraws rule key = true ↔
      s.isInactive key = true ∧ isAged rule.now.millis rule.ticketTtl.millis key = true :=
  Bool.and_eq_true_iff

theorem isInactive_sweep (key : String) :
    (s.sweep rule).isInactive key = true ↔ s.isInactive key = true ∧
      (!isAged rule.now.millis rule.ticketTtl.millis key) = true := by
  have hmarked : ((s.sweep rule).view key).marked = ((s.view key).sweep rule key).marked :=
    congrArg KeyView.marked (view_sweep rule s key)
  rw [← Bool.and_eq_true_iff]
  exact Bool.eq_iff_iff.mp hmarked

theorem inactive_sweep (key : String) (u : Unit) :
    (s.sweep rule).inactive[key]? = some u ↔ s.inactive[key]? = some u ∧
      (!isAged rule.now.millis rule.ticketTtl.millis key) = true := by
  have hmember : ∀ t : Store, t.inactive[key]? = some u ↔ t.isInactive key = true := by
    intro t
    simp [isInactive, Std.ExtTreeMap.getElem?_eq_some_iff]
  rw [hmember, hmember, isInactive_sweep]

theorem tickets_afterAged (key : String) (ticket : Ticket) :
    (s.afterAged rule).tickets[key]? = some ticket ↔
      s.tickets[key]? = some ticket ∧ (!s.withdraws rule key) = true := by
  change ((s.afterAged rule).view key).ticket = some ticket ↔ (s.view key).ticket = some ticket ∧ _
  rw [view_afterAged, Bool.not_eq_true', ← Bool.not_eq_true, withdraws_iff]
  split_ifs with hwithdrawn
  · exact iff_of_false (by simp) fun h ↦ h.2 hwithdrawn
  · exact (and_iff_left hwithdrawn).symm

theorem tickets_sweep (key : String) (ticket : Ticket) :
    (s.sweep rule).tickets[key]? = some ticket ↔
      (s.afterAged rule).tickets[key]? = some ticket ∧ (!ticket.isExpiredAt rule.now) = true := by
  change ((s.sweep rule).view key).ticket = some ticket ↔
    ((s.afterAged rule).view key).ticket = some ticket ∧ _
  rw [view_sweep, view_afterAged]
  simp only [KeyView.sweep]
  split_ifs
  · simp
  · exact Option.filter_eq_some_iff

theorem assignments_sweep (key : String) (assignment : Assignment) :
    (s.sweep rule).assignments[key]? = some assignment ↔
      s.assignments[key]? = some assignment ∧
        (!isAged rule.now.millis rule.assignmentTtl.millis key) = true := by
  change ((s.sweep rule).view key).assignment = some assignment ↔
    (s.view key).assignment = some assignment ∧ _
  rw [view_sweep, KeyView.sweep]
  by_cases haged : isAged rule.now.millis rule.assignmentTtl.millis key = true <;> simp [haged]

theorem assignments_afterExpired : (s.afterExpired rule).assignments = s.assignments := by
  apply Std.ExtTreeMap.ext_getElem?
  intro key
  change ((s.afterExpired rule).view key).assignment = (s.view key).assignment
  rw [view_afterExpired, view_afterAged]
  split_ifs <;> rfl

/-- Each key of the first pass is met once, so a ticket that it takes is counted once. -/
theorem length_agedKeys_filter :
    ((s.agedKeys rule).filter s.containsTicket).length =
      (s.tickets.toList.filter fun p ↦ s.withdraws rule p.1).length := by
  have hmarked : (s.agedKeys rule).Nodup := by
    rw [agedKeys, inactiveKeys, Std.ExtTreeMap.map_fst_toList_eq_keys]
    exact Std.ExtTreeMap.nodup_keys.filter _
  have hstored : ((s.tickets.toList.filter fun p ↦ s.withdraws rule p.1).map (·.1)).Nodup := by
    have hkeys : (s.tickets.toList.map (·.1)).Nodup := by
      rw [Std.ExtTreeMap.map_fst_toList_eq_keys]
      exact Std.ExtTreeMap.nodup_keys
    exact hkeys.sublist (List.filter_sublist.map _)
  have hsame : ((s.agedKeys rule).filter s.containsTicket).Perm
      ((s.tickets.toList.filter fun p ↦ s.withdraws rule p.1).map (·.1)) := by
    rw [List.perm_ext_iff_of_nodup (hmarked.filter _) hstored]
    intro key
    have hwithdrawn : key ∈ s.agedKeys rule ↔ s.withdraws rule key = true :=
      mem_agedKeys.trans (withdraws_iff rule s).symm
    simp only [List.mem_filter, hwithdrawn, List.mem_map, Prod.exists, exists_and_right,
      exists_eq_right, Std.ExtTreeMap.mem_toList_iff_getElem?_eq_some]
    rw [← Option.isSome_iff_exists, and_comm]
    simp [containsTicket]
  simpa using hsame.length_eq

/-- Whether a sweep takes a ticket, by either of its rules. -/
def takes (key : String) (ticket : Ticket) : Bool :=
  s.withdraws rule key || ticket.isExpiredAt rule.now

theorem inactive_balance :
    (s.sweepReport rule).inactiveExpired + (s.sweepReport rule).inactiveRemaining =
      s.inactive.size := by
  rw [← length_filter_add_size (inactive_sweep rule s)]
  simp only [sweepReport, agedKeys, inactiveKeys, List.filter_map, List.length_map,
    Function.comp_def, Bool.not_not]

theorem tickets_balance :
    (s.sweepReport rule).ticketsExpired + (s.sweepReport rule).ticketsRemaining =
      s.tickets.size := by
  calc
    _ = (s.tickets.toList.filter fun p ↦ s.withdraws rule p.1).length +
        ((s.afterAged rule).tickets.toList.filter fun p ↦ p.2.isExpiredAt rule.now).length +
          (s.sweep rule).tickets.size := by
      rw [← length_agedKeys_filter]
      simp [sweepReport, expiredKeys]
    _ = (s.tickets.toList.filter fun p ↦ s.withdraws rule p.1).length +
        (s.afterAged rule).tickets.size := by
      rw [← length_filter_add_size (tickets_sweep rule s), Nat.add_assoc]
      simp
    _ = s.tickets.size := by
      rw [← length_filter_add_size (tickets_afterAged rule s)]
      simp

theorem assignments_balance :
    (s.sweepReport rule).assignmentsExpired + (s.sweepReport rule).assignmentsRemaining =
      s.assignments.size := by
  rw [← length_filter_add_size (assignments_sweep rule s)]
  simp only [sweepReport, agedAssignments, assignments_afterExpired, List.filter_map,
    List.length_map, Function.comp_def, Bool.not_not]

/-- A ticket that both rules take is counted once. -/
theorem ticketsExpired_eq :
    (s.sweepReport rule).ticketsExpired =
      (s.tickets.toList.filter fun p ↦ s.takes rule p.1 p.2).length := by
  have hkept : ∀ key ticket, (s.sweep rule).tickets[key]? = some ticket ↔
      s.tickets[key]? = some ticket ∧ (!s.takes rule key ticket) = true := by
    intro key ticket
    rw [tickets_sweep, tickets_afterAged, and_assoc, takes, Bool.not_or, Bool.and_eq_true]
  have hleft := length_filter_add_size hkept
  have hreport := tickets_balance rule s
  have hremaining : (s.sweepReport rule).ticketsRemaining = (s.sweep rule).tickets.size := rfl
  simp only [Bool.not_not] at hleft
  omega

section Again

theorem agedKeys_sweep : (s.sweep rule).agedKeys rule = [] := by
  rw [List.eq_nil_iff_forall_not_mem]
  intro key hkey
  obtain ⟨hmarked, haged⟩ := mem_agedKeys.mp hkey
  rw [view_sweep, KeyView.sweep, haged] at hmarked
  simp at hmarked

theorem expiredKeys_sweep : (s.sweep rule).expiredKeys rule = [] := by
  rw [List.eq_nil_iff_forall_not_mem]
  intro key hkey
  obtain ⟨ticket, hticket, hover⟩ := mem_expiredKeys.mp hkey
  have hcurrent := ((tickets_sweep rule s key ticket).mp hticket).2
  simp [hover] at hcurrent

theorem agedAssignments_sweep : (s.sweep rule).agedAssignments rule = [] := by
  rw [List.eq_nil_iff_forall_not_mem]
  intro key hkey
  obtain ⟨hassignment, haged⟩ := mem_agedAssignments.mp hkey
  rw [view_sweep, KeyView.sweep, haged] at hassignment
  simp at hassignment

theorem afterAged_sweep : (s.sweep rule).afterAged rule = s.sweep rule := by
  rw [afterAged, agedWrites, agedKeys_sweep]
  rfl

theorem afterExpired_sweep : (s.sweep rule).afterExpired rule = s.sweep rule := by
  rw [afterExpired, afterAged_sweep, expiredWrites, expiredKeys_sweep]
  rfl

theorem sweep_sweep : (s.sweep rule).sweep rule = s.sweep rule := by
  rw [sweep, sweepWrites, afterAged_sweep, afterExpired_sweep, agedWrites, agedKeys_sweep,
    expiredWrites, expiredKeys_sweep, assignmentWrites, agedAssignments_sweep]
  rfl

theorem total_sweepReport_sweep : ((s.sweep rule).sweepReport rule).total = 0 := by
  rw [SweepReport.total, sweepReport, afterAged_sweep, afterExpired_sweep, agedKeys_sweep,
    expiredKeys_sweep, agedAssignments_sweep]
  rfl

end Again

end Store

/-- Of each map, a report tells how many entries went and how many have stayed. -/
structure SweepReport.Accounts (r : SweepReport) (before after : Store) : Prop where
  inactive : r.inactiveExpired + r.inactiveRemaining = before.inactive.size
  inactiveLeft : r.inactiveRemaining = after.inactive.size
  tickets : r.ticketsExpired + r.ticketsRemaining = before.tickets.size
  ticketsLeft : r.ticketsRemaining = after.tickets.size
  assignments : r.assignmentsExpired + r.assignmentsRemaining = before.assignments.size
  assignmentsLeft : r.assignmentsRemaining = after.assignments.size

namespace Store

/-- A sweep drops the marks, the tickets and the assignments that are too old, and nothing else.
Its report adds up, with a ticket that both rules take counted once, and a second sweep at the
same time drops nothing. -/
theorem sweep_drops_past (rule : SweepRule) (s : Store) :
    let swept := s.sweep rule
    let report := s.sweepReport rule
    (∀ key, swept.isInactive key = true ↔
      s.isInactive key = true ∧ ¬ IsPast rule.now rule.ticketTtl key) ∧
    (∀ key ticket, swept.ticket? key = some ticket ↔ s.ticket? key = some ticket ∧
      ¬ (s.isInactive key = true ∧ IsPast rule.now rule.ticketTtl key) ∧
        ¬ ticket.expiration < rule.now) ∧
    (∀ key assignment, swept.assignment? key = some assignment ↔
      s.assignment? key = some assignment ∧ ¬ IsPast rule.now rule.assignmentTtl key) ∧
    (∀ ttl key, (∀ born, LogId.creationMillis? key = some born → rule.now.millis ≤ born) →
      ¬ IsPast rule.now ttl key) ∧
    report.Accounts s swept ∧
    report.ticketsExpired = (s.tickets.toList.filter fun p ↦ s.takes rule p.1 p.2).length ∧
    (swept.sweepReport rule).total = 0 ∧ swept.sweep rule = swept := by
  intro swept report
  refine ⟨?_, ?_, ?_, fun ttl key ↦ not_isPast_of_le, ?_, ticketsExpired_eq rule s,
    total_sweepReport_sweep rule s, sweep_sweep rule s⟩
  · intro key
    rw [isInactive_sweep, Bool.not_eq_true', ← Bool.not_eq_true, isAged_iff_isPast]
  · intro key ticket
    have htaken : s.withdraws rule key = true ↔
        s.isInactive key = true ∧ IsPast rule.now rule.ticketTtl key := by
      rw [withdraws_iff, isAged_iff_isPast]
    have hticket : swept.ticket? key = some ticket ↔ _ := tickets_sweep rule s key ticket
    rw [hticket, tickets_afterAged, and_assoc, Bool.not_eq_true', Bool.not_eq_true',
      ← Bool.not_eq_true, ← Bool.not_eq_true, htaken, Ticket.isExpiredAt, decide_eq_true_eq]
    rfl
  · intro key assignment
    have hassignment : swept.assignment? key = some assignment ↔ _ :=
      assignments_sweep rule s key assignment
    rw [hassignment, Bool.not_eq_true', ← Bool.not_eq_true, isAged_iff_isPast]
    rfl
  · exact ⟨inactive_balance rule s, rfl, tickets_balance rule s, rfl, assignments_balance rule s,
      rfl⟩

end Store

end TicketPool

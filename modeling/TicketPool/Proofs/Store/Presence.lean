import TicketPool.Proofs.Store.Lifetime

/-!
# When a ticket is in the pool

Whether a run leaves a ticket under a key is told by the last creation of the key and by the
sweeps after it.  The ticket is then active just if the key's last command activates it.
-/

namespace TicketPool

theorem isAged_iff {now ttl : UInt64} {key : String} :
    isAged now ttl key = true ↔
      ∃ born, LogId.creationMillis? key = some born ∧ ttl < monus now born := by
  unfold isAged
  cases LogId.creationMillis? key <;> simp

namespace StoreStep

section Last

variable {α : Type} {gives : Update → Option α} {test : List StoreStep → SweepRule → Prop}
  {steps before after : List StoreStep} {u : Update} {a : α}

theorem lastOf_split (hu : gives u = some a) (hafter : ∀ v ∈ updates after, gives v = none) :
    lastOf gives (before ++ .update u :: after) = some a := by
  have hsplit : before ++ .update u :: after = (before ++ [.update u]) ++ after := by simp
  rw [hsplit, lastOf_append_of_none hafter, lastOf_update, hu, Option.some_or]

theorem exists_split_of_lastOf (h : lastOf gives steps = some a) :
    ∃ before u after, steps = before ++ .update u :: after ∧ gives u = some a ∧
      ∀ v ∈ updates after, gives v = none := by
  induction steps using List.reverseRecOn with
  | nil => simp [lastOf, updates] at h
  | append_singleton steps op ih =>
    by_cases hop : ∀ v ∈ updates [op], gives v = none
    · rw [lastOf_append_of_none hop] at h
      obtain ⟨before, u, after, rfl, hu, hafter⟩ := ih h
      refine ⟨before, u, after ++ [op], by simp, hu, ?_⟩
      rw [updates_append]
      exact List.forall_mem_append.mpr ⟨hafter, hop⟩
    · cases op with
      | sweep rule => exact absurd (by simp [updates]) hop
      | update u =>
        have hgives : gives u ≠ none := by simpa [updates] using hop
        obtain ⟨given, hu⟩ := Option.ne_none_iff_exists'.mp hgives
        rw [lastOf_update, hu, Option.some_or] at h
        exact ⟨steps, u, [], rfl, hu.trans h, by simp [updates]⟩

/-- The sweeps that count are those behind the last update that gives something. -/
theorem sweptSince_split (hu : gives u = some a) (hafter : ∀ v ∈ updates after, gives v = none) :
    SweptSince gives test (before ++ .update u :: after) ↔
      ∃ earlier rule later, after = earlier ++ .sweep rule :: later ∧
        test (before ++ .update u :: earlier) rule := by
  constructor
  · rintro ⟨first, rule, rest, hsteps, htest, hrest⟩
    rcases List.append_eq_append_iff.mp hsteps with ⟨gap, hfirst, hgap⟩ | ⟨gap, hbefore, hgap⟩
    · cases gap with
      | nil => simp at hgap
      | cons op earlier =>
        obtain ⟨rfl, rfl⟩ : .update u = op ∧ after = earlier ++ .sweep rule :: rest := by
          simpa using hgap
        exact ⟨earlier, rule, rest, rfl, hfirst ▸ htest⟩
    · -- the sweep came first, so the update would be among those behind it
      have hmem : u ∈ updates rest := by
        cases gap with
        | nil => simp at hgap
        | cons op middle =>
          obtain ⟨-, rfl⟩ : .sweep rule = op ∧ rest = middle ++ .update u :: after := by
            simpa using hgap
          simp [updates]
      rw [hrest u hmem] at hu
      cases hu
  · rintro ⟨earlier, rule, later, rfl, htest⟩
    refine ⟨before ++ .update u :: earlier, rule, later, by simp, htest, ?_⟩
    intro v hv
    apply hafter v
    rw [updates_append]
    exact List.mem_append_right _ (by simpa [updates] using hv)

end Last

/-- The last ticket created for a key is still due: no later sweep came after its own time, and
none found the key aged while its last command was not activation. -/
def Standing (codec : Codec) (key : String) (steps : List StoreStep) : Prop :=
  ∃ before u ticket after, steps = before ++ .update u :: after ∧
    u.ticketFor? codec key = some ticket ∧
    (∀ v ∈ updates after, v.ticketFor? codec key = none) ∧
    ∀ earlier rule later, after = earlier ++ .sweep rule :: later →
      ¬ ticket.expiration < rule.now ∧
        ∀ born, LogId.creationMillis? key = some born →
          rule.ticketTtl.millis < monus rule.now.millis born →
            lastCommand codec key (before ++ .update u :: earlier) = some .activate

variable {codec : Codec} {key : String} {steps before after : List StoreStep} {u : Update}
  {ticket : Ticket}

theorem expired_split (hu : u.ticketFor? codec key = some ticket)
    (hafter : ∀ v ∈ updates after, v.ticketFor? codec key = none) :
    Expired codec key (before ++ .update u :: after) ↔
      ∃ earlier rule later, after = earlier ++ .sweep rule :: later ∧
        ticket.expiration < rule.now := by
  rw [Expired, sweptSince_split hu hafter]
  refine exists_congr fun earlier ↦ exists_congr fun rule ↦ exists_congr fun later ↦ ?_
  refine and_congr_right fun hsplit ↦ ?_
  have hearlier : ∀ v ∈ updates earlier, v.ticketFor? codec key = none := by
    intro v hv
    apply hafter v
    rw [hsplit, updates_append]
    exact List.mem_append_left _ hv
  have hlast : lastTicket codec key (before ++ .update u :: earlier) = some ticket :=
    lastOf_split hu hearlier
  simp [hlast, Ticket.isExpiredAt]

theorem standing_iff :
    Standing codec key steps ↔ ∃ ticket, lastTicket codec key steps = some ticket ∧
      ¬ Lapsed codec key steps ∧ ¬ Expired codec key steps := by
  constructor
  · rintro ⟨before, u, ticket, after, rfl, hu, hafter, hkept⟩
    refine ⟨ticket, lastOf_split hu hafter, ?_, ?_⟩
    · rw [Lapsed, sweptSince_split hu hafter]
      rintro ⟨earlier, rule, later, hsplit, haged, hcommand⟩
      obtain ⟨born, hborn, hold⟩ := isAged_iff.mp haged
      exact hcommand ((hkept earlier rule later hsplit).2 born hborn hold)
    · rw [expired_split hu hafter]
      rintro ⟨earlier, rule, later, hsplit, hover⟩
      exact (hkept earlier rule later hsplit).1 hover
  · rintro ⟨ticket, hticket, hlapsed, hexpired⟩
    obtain ⟨before, u, after, rfl, hu, hafter⟩ := exists_split_of_lastOf hticket
    rw [Lapsed, sweptSince_split hu hafter] at hlapsed
    rw [expired_split hu hafter] at hexpired
    refine ⟨before, u, ticket, after, rfl, hu, hafter, fun earlier rule later hsplit ↦ ⟨?_, ?_⟩⟩
    · intro hover
      exact hexpired ⟨earlier, rule, later, hsplit, hover⟩
    · intro born hborn hold
      by_contra hcommand
      exact hlapsed ⟨earlier, rule, later, hsplit, isAged_iff.mpr ⟨born, hborn, hold⟩, hcommand⟩

end StoreStep

namespace Store

open StoreStep

variable {codec : Codec} {key : String}

theorem containsTicket_iff (s : Store) :
    s.containsTicket key = true ↔ ∃ ticket, (s.view key).ticket = some ticket := by
  rw [← Option.isSome_iff_exists]
  simp [containsTicket, view, ticket?]

theorem isActive_iff (s : Store) :
    s.isActive key = true ↔ s.containsTicket key = true ∧ ¬ (s.view key).marked = true := by
  simp [isActive, view]

theorem containsTicket_run_iff (steps : List StoreStep) :
    (empty.run codec steps).containsTicket key = true ↔ Standing codec key steps := by
  rw [containsTicket_iff, standing_iff]
  exact exists_congr fun ticket ↦ ticket_run steps ticket

/-- The mark of a stored ticket follows the last command of its key, although sweeps delete
marks too. -/
theorem not_marked_iff_of_standing {steps : List StoreStep} (h : Standing codec key steps) :
    ¬ ((empty.run codec steps).view key).marked = true ↔
      lastCommand codec key steps = some .activate := by
  obtain ⟨ticket, hticket, hlapsed, -⟩ := standing_iff.mp h
  constructor
  · intro hmarked
    by_contra hcommand
    exact hmarked (marked_of_lastTicket hticket hlapsed hcommand)
  · intro hcommand hmarked
    obtain ⟨⟨c, hc, hactive⟩, -⟩ := (marked_run steps).mp hmarked
    rw [hcommand] at hc
    exact hactive (Option.some.inj hc).symm

/-- A run leaves a ticket under a key just if the last one created for it is still due, and the
ticket is active just if the key's last command activates it. -/
theorem membership_run (codec : Codec) (steps : List StoreStep) (key : String) :
    let s := empty.run codec steps
    (s.containsTicket key = true ↔ Standing codec key steps) ∧
      (s.isActive key = true ↔
        Standing codec key steps ∧ lastCommand codec key steps = some .activate) := by
  intro s
  have hcontains : s.containsTicket key = true ↔ Standing codec key steps :=
    containsTicket_run_iff steps
  refine ⟨hcontains, ?_⟩
  rw [isActive_iff, hcontains]
  exact and_congr_right fun h ↦ not_marked_iff_of_standing h

end Store

end TicketPool

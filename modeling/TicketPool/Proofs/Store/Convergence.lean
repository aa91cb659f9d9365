import TicketPool.Proofs.Store.Lifetime

/-!
# Stores that are swept at different times

Two stores take the same updates and are swept at different times, but the last sweep of both
is the same.  They agree in the end on all keys but those that one of them lost too early: a
ticket that was activated after a sweep had dropped it does not come back.
-/

namespace TicketPool

theorem Instant.lt_of_lt_of_not_lt {a b c : Instant} (hab : a < b) (hbc : ¬ c < b) : a < c := by
  rw [lt_def] at hab hbc ⊢
  omega

theorem Instant.toNat_millis (t : Instant) :
    t.millis.toNat = (t.secs * 1000 + (t.nanos / 1000000 : Nat)).toNat := by
  have hlast := t.le_last
  have hnanos : t.nanos / 1000000 < 2000 := by
    rcases t.nanos_lt with h | h <;> omega
  unfold lastSecond at hlast
  rw [millis, UInt64.toNat_ofNat']
  apply Nat.mod_eq_of_lt
  omega

/-- Milliseconds follow the order of instants but for leap seconds. -/
theorem Instant.millis_le_of_not_lt {a b : Instant} (hab : ¬ b < a) (ha : a.nanos < 1000000000) :
    a.millis ≤ b.millis := by
  rw [UInt64.le_iff_toNat_le, toNat_millis, toNat_millis]
  apply Int.toNat_le_toNat
  rw [lt_def, not_or, not_and] at hab
  obtain ⟨hsecs, hnanos⟩ := hab
  rcases Int.lt_or_eq_of_le (Int.not_lt.mp hsecs) with hless | hsame
  · have hwithin : a.nanos / 1000000 < 1000 := by omega
    omega
  · have hrest : a.nanos / 1000000 ≤ b.nanos / 1000000 :=
      Nat.div_le_div_right (Nat.not_lt.mp (hnanos hsame.symm))
    omega

theorem isAged_mono {now later ttl : UInt64} {key : String} (hle : now ≤ later)
    (h : isAged now ttl key = true) : isAged later ttl key = true := by
  unfold isAged at h ⊢
  cases hborn : LogId.creationMillis? key with
  | none => simp [hborn] at h
  | some born =>
    simp only [hborn, decide_eq_true_eq, UInt64.lt_iff_toNat_lt, UInt64.le_iff_toNat_le,
      toNat_monus] at h hle ⊢
    omega

/-- Whether a sweep can come last: it keeps as long as the other sweeps, and comes no
earlier. -/
def SweepRule.Closes (last : SweepRule) (steps : List StoreStep) : Prop :=
  ∀ rule, .sweep rule ∈ steps → rule.ticketTtl = last.ticketTtl ∧
    rule.assignmentTtl = last.assignmentTtl ∧ ¬ last.now < rule.now

namespace StoreStep

variable {codec : Codec} {key : String} {steps : List StoreStep} {last : SweepRule}

/-- What the last sweep finds whenever another sweep has found it, it decides alone. -/
theorem sweptSince_closed_iff {α : Type} {gives : Update → Option α}
    {test : List StoreStep → SweepRule → Prop} {finds : Prop} (hlast : test steps last ↔ finds)
    (hearlier : ∀ before rule, .sweep rule ∈ steps → test before rule → finds) :
    SweptSince gives test (steps ++ [.sweep last]) ↔ finds := by
  rw [sweptSince_sweep, hlast]
  refine or_iff_left_of_imp ?_
  rintro ⟨before, rule, after, rfl, htest, -⟩
  exact hearlier before rule (by simp) htest

theorem lastOf_congr {α : Type} (gives : Update → Option α) {a b : List StoreStep}
    (h : updates a = updates b) : lastOf gives a = lastOf gives b := by
  rw [lastOf, lastOf, h]

/-- The last sweep decides whether a ticket's own time is over. -/
theorem expired_closed (hlast : last.Closes steps) {ticket : Ticket}
    (hticket : lastTicket codec key steps = some ticket) :
    Expired codec key (steps ++ [.sweep last]) ↔ ticket.isExpiredAt last.now = true := by
  rw [Expired, sweptSince_sweep]
  constructor
  · rintro (⟨other, hother, hover⟩ | ⟨before, rule, after, rfl, ⟨other, hother, hover⟩, hafter⟩)
    · rw [hticket] at hother
      cases hother
      exact hover
    · have hsame : lastTicket codec key (before ++ .sweep rule :: after) =
          lastTicket codec key before :=
        lastOf_append_of_none (by simpa [updates] using hafter)
      rw [hsame, hother] at hticket
      cases hticket
      have hearlier := (hlast rule (by simp)).2.2
      exact decide_eq_true (Instant.lt_of_lt_of_not_lt (of_decide_eq_true hover) hearlier)
  · intro hover
    exact .inl ⟨ticket, hticket, hover⟩

/-- Whether two runs with the same last sweep leave the same of a key: a ticket that is not
over has lapsed in both or in neither, and so for a mark that was not taken back and for an
assignment. -/
structure SameFate (codec : Codec) (last : SweepRule) (first second : List StoreStep)
    (key : String) : Prop where
  ticket : ∀ ticket, lastTicket codec key first = some ticket →
    ¬ ticket.isExpiredAt last.now = true →
      (Lapsed codec key (first ++ [.sweep last]) ↔ Lapsed codec key (second ++ [.sweep last]))
  mark : ∀ c, lastCommand codec key first = some c → c ≠ .activate →
    (Cleared codec key (first ++ [.sweep last]) ↔ Cleared codec key (second ++ [.sweep last]))
  assignment : ∀ assignment, lastAssignment codec key first = some assignment →
    (Dropped codec key (first ++ [.sweep last]) ↔ Dropped codec key (second ++ [.sweep last]))

section Millis

variable (hlast : last.Closes steps)
  (hmillis : ∀ rule, .sweep rule ∈ steps → rule.now.millis ≤ last.now.millis)

include hlast hmillis

/-- Without activation the last sweep decides whether a ticket has lapsed. -/
theorem lapsed_closed_iff (hcommand : lastCommand codec key steps ≠ some .activate) :
    Lapsed codec key (steps ++ [.sweep last]) ↔
      isAged last.now.millis last.ticketTtl.millis key = true := by
  apply sweptSince_closed_iff (and_iff_left hcommand)
  rintro - rule hrule ⟨haged, -⟩
  rw [(hlast rule hrule).1] at haged
  exact isAged_mono (hmillis rule hrule) haged

theorem cleared_closed_iff :
    Cleared codec key (steps ++ [.sweep last]) ↔
      isAged last.now.millis last.ticketTtl.millis key = true := by
  apply sweptSince_closed_iff Iff.rfl
  intro _ rule hrule haged
  rw [(hlast rule hrule).1] at haged
  exact isAged_mono (hmillis rule hrule) haged

theorem dropped_closed_iff :
    Dropped codec key (steps ++ [.sweep last]) ↔
      isAged last.now.millis last.assignmentTtl.millis key = true := by
  apply sweptSince_closed_iff Iff.rfl
  intro _ rule hrule haged
  rw [(hlast rule hrule).2.1] at haged
  exact isAged_mono (hmillis rule hrule) haged

end Millis

theorem lapsed_closed_iff_of_activate
    (hcommand : lastCommand codec key steps = some .activate) :
    Lapsed codec key (steps ++ [.sweep last]) ↔ Lapsed codec key steps := by
  rw [Lapsed, sweptSince_sweep]
  exact or_iff_right fun h ↦ h.2 hcommand

/-- While milliseconds do not run back, only a ticket that was activated can have another
fate. -/
theorem sameFate_iff {first second : List StoreStep} (hupdates : updates first = updates second)
    (hfirst : last.Closes first) (hsecond : last.Closes second)
    (hmillis : ∀ rule, .sweep rule ∈ first ++ second → rule.now.millis ≤ last.now.millis) :
    SameFate codec last first second key ↔
      ∀ ticket, lastTicket codec key first = some ticket → ¬ ticket.isExpiredAt last.now = true →
        lastCommand codec key first = some .activate →
          (Lapsed codec key first ↔ Lapsed codec key second) := by
  have hbefore : ∀ rule, .sweep rule ∈ first → rule.now.millis ≤ last.now.millis :=
    fun rule hrule ↦ hmillis rule (List.mem_append_left _ hrule)
  have hafter : ∀ rule, .sweep rule ∈ second → rule.now.millis ≤ last.now.millis :=
    fun rule hrule ↦ hmillis rule (List.mem_append_right _ hrule)
  have hsame : lastCommand codec key second = lastCommand codec key first :=
    lastOf_congr _ hupdates.symm
  constructor
  · intro h ticket hticket hcurrent hactive
    rw [← lapsed_closed_iff_of_activate hactive,
      ← lapsed_closed_iff_of_activate (hsame.trans hactive)]
    exact h.ticket ticket hticket hcurrent
  · intro h
    refine ⟨?_, ?_, ?_⟩
    · intro ticket hticket hcurrent
      by_cases hactive : lastCommand codec key first = some .activate
      · rw [lapsed_closed_iff_of_activate hactive,
          lapsed_closed_iff_of_activate (hsame.trans hactive)]
        exact h ticket hticket hcurrent hactive
      · have hactive' : lastCommand codec key second ≠ some .activate := by rwa [hsame]
        rw [lapsed_closed_iff hfirst hbefore hactive, lapsed_closed_iff hsecond hafter hactive']
    · intro c _ _
      rw [cleared_closed_iff hfirst hbefore, cleared_closed_iff hsecond hafter]
    · intro assignment _
      rw [dropped_closed_iff hfirst hbefore, dropped_closed_iff hsecond hafter]

end StoreStep

namespace Store

open StoreStep

variable {codec : Codec} {key : String} {first second : List StoreStep} {last : SweepRule}

/-- The last sweep leaves the same ticket unless one run has lost it before. -/
theorem ticket_closed_eq_iff (hupdates : updates first = updates second)
    (hfirst : last.Closes first) (hsecond : last.Closes second) :
    ((empty.run codec (first ++ [.sweep last])).view key).ticket =
        ((empty.run codec (second ++ [.sweep last])).view key).ticket ↔
      ∀ ticket, lastTicket codec key first = some ticket → ¬ ticket.isExpiredAt last.now = true →
        (Lapsed codec key (first ++ [.sweep last]) ↔
          Lapsed codec key (second ++ [.sweep last])) := by
  have hsame : lastTicket codec key second = lastTicket codec key first :=
    lastOf_congr _ hupdates.symm
  have hclosed : ∀ steps, lastTicket codec key (steps ++ [.sweep last]) =
      lastTicket codec key steps := fun steps ↦ lastOf_sweep _ steps last
  rw [Option.ext_iff]
  refine forall_congr' fun ticket ↦ ?_
  rw [ticket_run, ticket_run, hclosed, hclosed, hsame]
  by_cases hticket : lastTicket codec key first = some ticket
  · rw [expired_closed hfirst hticket, expired_closed hsecond (hsame.trans hticket)]
    simp only [hticket, true_and, forall_const]
    tauto
  · simp [hticket]

theorem marked_closed_eq_iff (hupdates : updates first = updates second) :
    ((empty.run codec (first ++ [.sweep last])).view key).marked =
        ((empty.run codec (second ++ [.sweep last])).view key).marked ↔
      ∀ c, lastCommand codec key first = some c → c ≠ .activate →
        (Cleared codec key (first ++ [.sweep last]) ↔
          Cleared codec key (second ++ [.sweep last])) := by
  have hsame : lastCommand codec key second = lastCommand codec key first :=
    lastOf_congr _ hupdates.symm
  have hclosed : ∀ steps, lastCommand codec key (steps ++ [.sweep last]) =
      lastCommand codec key steps := fun steps ↦ lastOf_sweep _ steps last
  rw [Bool.eq_iff_iff, marked_run, marked_run, hclosed, hclosed, hsame]
  cases hcommand : lastCommand codec key first with
  | none => simp
  | some c =>
    simp only [Option.some.injEq, exists_eq_left', forall_eq']
    tauto

theorem assignment_closed_eq_iff (hupdates : updates first = updates second) :
    ((empty.run codec (first ++ [.sweep last])).view key).assignment =
        ((empty.run codec (second ++ [.sweep last])).view key).assignment ↔
      ∀ assignment, lastAssignment codec key first = some assignment →
        (Dropped codec key (first ++ [.sweep last]) ↔
          Dropped codec key (second ++ [.sweep last])) := by
  have hsame : lastAssignment codec key second = lastAssignment codec key first :=
    lastOf_congr _ hupdates.symm
  have hclosed : ∀ steps, lastAssignment codec key (steps ++ [.sweep last]) =
      lastAssignment codec key steps := fun steps ↦ lastOf_sweep _ steps last
  rw [Option.ext_iff]
  refine forall_congr' fun assignment ↦ ?_
  rw [assignment_run, assignment_run, hclosed, hclosed, hsame]
  tauto

theorem view_closed_eq_iff (hupdates : updates first = updates second)
    (hfirst : last.Closes first) (hsecond : last.Closes second) :
    (empty.run codec (first ++ [.sweep last])).view key =
        (empty.run codec (second ++ [.sweep last])).view key ↔
      SameFate codec last first second key := by
  rw [KeyView.ext_iff, ticket_closed_eq_iff hupdates hfirst hsecond,
    marked_closed_eq_iff hupdates, assignment_closed_eq_iff hupdates]
  constructor
  · rintro ⟨hticket, hmark, hassignment⟩
    exact ⟨hticket, hmark, hassignment⟩
  · intro h
    exact ⟨h.ticket, h.mark, h.assignment⟩

/-- Two stores that take the same updates, and are swept whenever, agree after a common last
sweep just if each key has the same fate in both.  Unless a sweep falls into a leap second, that
is so just if every activated ticket that is not over has lapsed in both or in neither. -/
theorem run_closed_eq_iff (codec : Codec) (first second : List StoreStep) (last : SweepRule)
    (hupdates : updates first = updates second)
    (hfirst : last.Closes first) (hsecond : last.Closes second) :
    let one := empty.run codec (first ++ [.sweep last])
    let two := empty.run codec (second ++ [.sweep last])
    (one = two ↔ ∀ key, SameFate codec last first second key) ∧
      ((∀ key, SameFate codec last first second key) → one.digest = two.digest) ∧
      ((∀ rule, .sweep rule ∈ first ++ second → rule.now.nanos < 1000000000) →
        (one = two ↔ ∀ key ticket, lastTicket codec key first = some ticket →
          ¬ ticket.isExpiredAt last.now = true →
            lastCommand codec key first = some .activate →
              (Lapsed codec key first ↔ Lapsed codec key second))) := by
  intro one two
  have hfate : one = two ↔ ∀ key, SameFate codec last first second key := by
    constructor
    · intro hsame key
      exact (view_closed_eq_iff hupdates hfirst hsecond).mp (congrArg (fun s ↦ s.view key) hsame)
    · intro h
      exact eq_of_view fun key ↦ (view_closed_eq_iff hupdates hfirst hsecond).mpr (h key)
  refine ⟨hfate, fun h ↦ congrArg digest (hfate.mpr h), fun hleap ↦ ?_⟩
  have hmillis : ∀ rule, .sweep rule ∈ first ++ second → rule.now.millis ≤ last.now.millis := by
    intro rule hrule
    have hearlier : ¬ last.now < rule.now :=
      (List.mem_append.mp hrule).elim (fun h ↦ (hfirst rule h).2.2) fun h ↦ (hsecond rule h).2.2
    exact Instant.millis_le_of_not_lt hearlier (hleap rule hrule)
  rw [hfate]
  exact forall_congr' fun key ↦ sameFate_iff hupdates hfirst hsecond hmillis

/-- A sweep at 1700001000 seconds that keeps tickets for ten minutes. -/
def lateSweep : SweepRule where
  now := ⟨1700001000, 0, by decide, by decide, by decide⟩
  ticketTtl := .ofMillis 600000
  assignmentTtl := .ofMillis 1200000

/-- The creation of a ticket that is good until 2030. -/
def oldTicket : StoreStep :=
  .update ⟨.createTicket, "1700000000000-0",
    "\x7b\"expiration_time\":\"2030-01-01T00:00:00Z\"\x7d"⟩

def revival : StoreStep :=
  .update (.activate "1700000000000-0")

theorem closes_oldTicket {steps : List StoreStep}
    (hsteps : ∀ op ∈ steps, op = oldTicket ∨ op = revival ∨ op = .sweep lateSweep) :
    lateSweep.Closes steps := by
  intro rule hrule
  rcases hsteps _ hrule with h | h | h
  · cases h
  · cases h
  · cases h
    exact ⟨rfl, rfl, by decide⟩

/-- A sweep between creation and activation leaves a store without the ticket. -/
theorem late_activation_diverges :
    updates [oldTicket, revival] = updates [oldTicket, .sweep lateSweep, revival] ∧
      lateSweep.Closes [oldTicket, revival] ∧
      lateSweep.Closes [oldTicket, .sweep lateSweep, revival] ∧
      (empty.run .json ([oldTicket, revival] ++ [.sweep lateSweep])).isActive
        "1700000000000-0" = true ∧
      (empty.run .json ([oldTicket, .sweep lateSweep, revival] ++ [.sweep lateSweep])).isActive
        "1700000000000-0" = false ∧
      (empty.run .json ([oldTicket, revival] ++ [.sweep lateSweep])).digest ≠
        (empty.run .json ([oldTicket, .sweep lateSweep, revival] ++ [.sweep lateSweep])).digest := by
  refine ⟨rfl, closes_oldTicket (by simp), closes_oldTicket (by simp), ?_, ?_, ?_⟩
  · decide +kernel
  · decide +kernel
  · decide +kernel

/-- The two stores of a late activation do not have the same fate. -/
theorem late_activation_fate :
    updates [oldTicket, revival] = updates [oldTicket, .sweep lateSweep, revival] ∧
      lateSweep.Closes [oldTicket, revival] ∧
      lateSweep.Closes [oldTicket, .sweep lateSweep, revival] ∧
      ¬ ∀ key, SameFate .json lateSweep [oldTicket, revival]
        [oldTicket, .sweep lateSweep, revival] key := by
  have hfirst : lateSweep.Closes [oldTicket, revival] := closes_oldTicket (by simp)
  have hsecond : lateSweep.Closes [oldTicket, .sweep lateSweep, revival] :=
    closes_oldTicket (by simp)
  have hdiffer : empty.run .json ([oldTicket, revival] ++ [.sweep lateSweep]) ≠
      empty.run .json ([oldTicket, .sweep lateSweep, revival] ++ [.sweep lateSweep]) := by
    intro hsame
    have hactive := congrArg (fun s ↦ s.isActive "1700000000000-0") hsame
    revert hactive
    decide +kernel
  refine ⟨rfl, hfirst, hsecond, fun hfate ↦ hdiffer ?_⟩
  exact (run_closed_eq_iff .json [oldTicket, revival] [oldTicket, .sweep lateSweep, revival]
    lateSweep rfl hfirst hsecond).1.mpr hfate

end Store

end TicketPool

import Mathlib.Data.List.Induction
import TicketPool.Proofs.Store.KeyView

/-!
# How long a store keeps what it was given

What a run leaves of a key is read off its steps: the last ticket, the last command and the
last assignment of the key say what there is to keep, and it is kept unless a sweep that may
drop it came later.
-/

namespace TicketPool

namespace Update

variable (codec : Codec) (key : String) (u : Update)

def ticketFor? : Option Ticket :=
  if u.key = key ∧ u.command = .createTicket then
    (codec.decodeTicket u.value).toOption.map fun ticket ↦ { ticket with id := u.key }
  else none

/-- The command by which an update marks or unmarks a key. -/
def commandFor? : Option Command :=
  if u.key = key then
    match u.command with
    | .createTicket => (codec.decodeTicket u.value).toOption.map fun _ ↦ .createTicket
    | .activate => some .activate
    | .deactivate => some .deactivate
    | .assign => none
  else none

def assignmentFor? : Option Assignment :=
  if u.key = key ∧ u.command = .assign then (codec.decodeAssignment u.value).toOption else none

variable {codec key u}

theorem ticketFor?_of_commandFor? (h : u.commandFor? codec key = none) :
    u.ticketFor? codec key = none := by
  unfold commandFor? at h
  unfold ticketFor?
  by_cases hkey : u.key = key
  · cases hcommand : u.command <;> simp_all
  · simp [hkey]

theorem id_of_ticketFor? {ticket : Ticket} (h : u.ticketFor? codec key = some ticket) :
    ticket.id = key := by
  unfold ticketFor? at h
  split_ifs at h with hcreate
  obtain ⟨given, -, rfl⟩ := Option.map_eq_some_iff.mp h
  exact hcreate.1

theorem activates_of_commandFor? (h : u.commandFor? codec key = some .activate) :
    u.key = key ∧ u.command = .activate := by
  unfold commandFor? at h
  cases hcommand : u.command <;> simp_all

end Update

namespace KeyView

/-- An update replaces what it gives something for. -/
theorem step_update (codec : Codec) (key : String) (v : KeyView) (u : Update) :
    v.step codec key (.update u) =
      { ticket := (u.ticketFor? codec key).or v.ticket
        marked := ((u.commandFor? codec key).map fun c ↦ decide (c ≠ .activate)).getD v.marked
        assignment := (u.assignmentFor? codec key).or v.assignment } := by
  unfold step absorb Update.ticketFor? Update.commandFor? Update.assignmentFor?
  by_cases hkey : u.key = key
  · cases hcommand : u.command with
    | createTicket =>
      cases hpayload : codec.decodeTicket u.value <;>
        simp [hkey, hcommand, hpayload, Except.toOption]
    | activate => simp [hkey, hcommand]
    | deactivate => simp [hkey, hcommand]
    | assign =>
      cases hpayload : codec.decodeAssignment u.value <;>
        simp [hkey, hcommand, hpayload, Except.toOption]
  · simp [hkey]

end KeyView

namespace StoreStep

/-- The updates among steps, in order. -/
def updates (steps : List StoreStep) : List Update :=
  steps.filterMap fun
    | .update u => some u
    | .sweep _ => none

/-- What the last update has given that gives something. -/
def lastOf {α : Type} (gives : Update → Option α) (steps : List StoreStep) : Option α :=
  ((updates steps).filterMap gives).getLast?

/-- Whether a sweep that passes a test came after the last update that gives something.  The
test is told what happened before the sweep. -/
def SweptSince {α : Type} (gives : Update → Option α)
    (test : List StoreStep → SweepRule → Prop) (steps : List StoreStep) : Prop :=
  ∃ before rule after, steps = before ++ .sweep rule :: after ∧ test before rule ∧
    ∀ u ∈ updates after, gives u = none

section Last

variable {α : Type} {gives : Update → Option α} {test : List StoreStep → SweepRule → Prop}
  {steps : List StoreStep} {u : Update} {rule : SweepRule}

theorem updates_append (first second : List StoreStep) :
    updates (first ++ second) = updates first ++ updates second :=
  List.filterMap_append

theorem lastOf_eq_none_iff : lastOf gives steps = none ↔ ∀ u ∈ updates steps, gives u = none := by
  rw [lastOf, List.getLast?_eq_none_iff, List.filterMap_eq_nil_iff]

theorem lastOf_append (gives : Update → Option α) (first second : List StoreStep) :
    lastOf gives (first ++ second) = (lastOf gives second).or (lastOf gives first) := by
  rw [lastOf, updates_append, List.filterMap_append, List.getLast?_append, lastOf, lastOf]

theorem lastOf_append_of_none {after : List StoreStep}
    (hafter : ∀ u ∈ updates after, gives u = none) :
    lastOf gives (steps ++ after) = lastOf gives steps := by
  rw [lastOf_append, lastOf_eq_none_iff.mpr hafter, Option.none_or]

theorem lastOf_update (gives : Update → Option α) (steps : List StoreStep) (u : Update) :
    lastOf gives (steps ++ [.update u]) = (gives u).or (lastOf gives steps) := by
  cases hu : gives u with
  | none => simpa using lastOf_append_of_none (by simpa [updates] using hu)
  | some a => simp [lastOf, updates, hu]

theorem lastOf_sweep (gives : Update → Option α) (steps : List StoreStep) (rule : SweepRule) :
    lastOf gives (steps ++ [.sweep rule]) = lastOf gives steps :=
  lastOf_append_of_none (by simp [updates])

theorem sweptSince_concat (steps : List StoreStep) (op : StoreStep) :
    SweptSince gives test (steps ++ [op]) ↔
      (∃ rule, op = .sweep rule ∧ test steps rule) ∨
        (∀ u ∈ updates [op], gives u = none) ∧ SweptSince gives test steps := by
  constructor
  · rintro ⟨before, rule, after, hsteps, htest, hafter⟩
    rcases List.eq_nil_or_concat after with rfl | ⟨front, last, rfl⟩
    · obtain ⟨rfl, hop⟩ := List.append_inj' hsteps rfl
      exact .inl ⟨rule, by simpa using hop, htest⟩
    · rw [List.concat_eq_append, ← List.cons_append, ← List.append_assoc] at hsteps
      obtain ⟨rfl, hop⟩ := List.append_inj' hsteps rfl
      obtain rfl : op = last := by simpa using hop
      rw [List.concat_eq_append, updates_append] at hafter
      refine .inr ⟨fun u hu ↦ hafter u (List.mem_append_right _ hu), before, rule, front, rfl,
        htest, fun u hu ↦ hafter u (List.mem_append_left _ hu)⟩
  · rintro (⟨rule, rfl, htest⟩ | ⟨hop, before, rule, after, rfl, htest, hafter⟩)
    · exact ⟨steps, rule, [], rfl, htest, by simp [updates]⟩
    · refine ⟨before, rule, after ++ [op], by simp, htest, ?_⟩
      intro u hu
      rw [updates_append] at hu
      exact (List.mem_append.mp hu).elim (hafter u) (hop u)

theorem sweptSince_update :
    SweptSince gives test (steps ++ [.update u]) ↔
      gives u = none ∧ SweptSince gives test steps := by
  rw [sweptSince_concat]
  simp [updates]

theorem sweptSince_sweep :
    SweptSince gives test (steps ++ [.sweep rule]) ↔
      test steps rule ∨ SweptSince gives test steps := by
  rw [sweptSince_concat]
  simp [updates]

end Last

section Key

variable (codec : Codec) (key : String)

def lastTicket : List StoreStep → Option Ticket :=
  lastOf fun u ↦ u.ticketFor? codec key

/-- The last command that marked or unmarked a key. -/
def lastCommand : List StoreStep → Option Command :=
  lastOf fun u ↦ u.commandFor? codec key

def lastAssignment : List StoreStep → Option Assignment :=
  lastOf fun u ↦ u.assignmentFor? codec key

/-- A sweep has found the last ticket of a key over. -/
def Expired : List StoreStep → Prop :=
  SweptSince (fun u ↦ u.ticketFor? codec key) fun before rule ↦
    ∃ ticket, lastTicket codec key before = some ticket ∧ ticket.isExpiredAt rule.now = true

/-- Since the last ticket of a key, a sweep has found the key aged and not activated. -/
def Lapsed : List StoreStep → Prop :=
  SweptSince (fun u ↦ u.ticketFor? codec key) fun before rule ↦
    isAged rule.now.millis rule.ticketTtl.millis key = true ∧
      lastCommand codec key before ≠ some .activate

/-- Since the last command on a key, a sweep has found the key aged. -/
def Cleared : List StoreStep → Prop :=
  SweptSince (fun u ↦ u.commandFor? codec key) fun _ rule ↦
    isAged rule.now.millis rule.ticketTtl.millis key = true

/-- Since the last assignment of a key, a sweep has found the key too old for one. -/
def Dropped : List StoreStep → Prop :=
  SweptSince (fun u ↦ u.assignmentFor? codec key) fun _ rule ↦
    isAged rule.now.millis rule.assignmentTtl.millis key = true

end Key

variable {codec : Codec} {key : String} {steps : List StoreStep}

/-- A command on a key is needed for a ticket to be stored under it. -/
theorem lastCommand_ne_none {ticket : Ticket} (h : lastTicket codec key steps = some ticket) :
    lastCommand codec key steps ≠ none := by
  intro hnone
  have hcommands := lastOf_eq_none_iff.mp hnone
  have htickets : lastTicket codec key steps = none :=
    lastOf_eq_none_iff.mpr fun u hu ↦ Update.ticketFor?_of_commandFor? (hcommands u hu)
  rw [htickets] at h
  cases h

theorem Lapsed.of_cleared (h : Cleared codec key steps)
    (hcommand : lastCommand codec key steps ≠ some .activate) : Lapsed codec key steps := by
  obtain ⟨before, rule, after, rfl, haged, hafter⟩ := h
  refine ⟨before, rule, after, rfl, ⟨haged, ?_⟩, ?_⟩
  · have hsame : lastCommand codec key (before ++ .sweep rule :: after) =
        lastCommand codec key before :=
      lastOf_append_of_none (by simpa [updates] using hafter)
    rwa [hsame] at hcommand
  · intro u hu
    exact Update.ticketFor?_of_commandFor? (hafter u hu)

end StoreStep

namespace Store

open StoreStep

variable {codec : Codec} {key : String}

theorem view_run_concat (s : Store) (steps : List StoreStep) (op : StoreStep) (key : String) :
    (s.run codec (steps ++ [op])).view key = ((s.run codec steps).view key).step codec key op := by
  rw [view_run, view_run, List.foldl_append]
  rfl

/-- An assignment is kept until a sweep finds its key too old. -/
theorem assignment_run (steps : List StoreStep) (assignment : Assignment) :
    ((empty.run codec steps).view key).assignment = some assignment ↔
      lastAssignment codec key steps = some assignment ∧ ¬ Dropped codec key steps := by
  induction steps using List.reverseRecOn with
  | nil => simp [run, view, assignment?, empty, lastAssignment, lastOf, updates]
  | append_singleton steps op ih =>
    rw [view_run_concat]
    simp only [lastAssignment, Dropped] at ih ⊢
    cases op with
    | update u =>
      rw [KeyView.step_update, lastOf_update, sweptSince_update]
      cases hgiven : u.assignmentFor? codec key with
      | none => simpa using ih
      | some given => simp
    | sweep rule =>
      rw [lastOf_sweep, sweptSince_sweep]
      simp only [KeyView.step, KeyView.sweep]
      by_cases haged : isAged rule.now.millis rule.assignmentTtl.millis key = true
      · simp [haged]
      · simpa [haged] using ih

/-- A key is marked by every command but activation, until a sweep finds it aged. -/
theorem marked_run (steps : List StoreStep) :
    ((empty.run codec steps).view key).marked = true ↔
      (∃ c, lastCommand codec key steps = some c ∧ c ≠ .activate) ∧
        ¬ Cleared codec key steps := by
  induction steps using List.reverseRecOn with
  | nil => simp [run, view, isInactive, empty, lastCommand, lastOf, updates]
  | append_singleton steps op ih =>
    rw [view_run_concat]
    simp only [lastCommand, Cleared] at ih ⊢
    cases op with
    | update u =>
      rw [KeyView.step_update, lastOf_update, sweptSince_update]
      cases hgiven : u.commandFor? codec key with
      | none => simpa using ih
      | some c => simp
    | sweep rule =>
      rw [lastOf_sweep, sweptSince_sweep]
      simp only [KeyView.step, KeyView.sweep]
      by_cases haged : isAged rule.now.millis rule.ticketTtl.millis key = true
      · simp [haged]
      · simpa [haged] using ih

theorem marked_of_lastTicket {steps : List StoreStep} {ticket : Ticket}
    (hgiven : lastTicket codec key steps = some ticket) (hlapsed : ¬ Lapsed codec key steps)
    (hcommand : lastCommand codec key steps ≠ some .activate) :
    ((empty.run codec steps).view key).marked = true := by
  obtain ⟨c, hc⟩ := Option.ne_none_iff_exists'.mp (lastCommand_ne_none hgiven)
  have hcleared : ¬ Cleared codec key steps := fun h ↦ hlapsed (Lapsed.of_cleared h hcommand)
  refine (marked_run steps).mpr ⟨⟨c, hc, ?_⟩, hcleared⟩
  rintro rfl
  exact hcommand hc

/-- A ticket is kept until a sweep finds it over, or its key aged and not activated. -/
theorem ticket_run (steps : List StoreStep) (ticket : Ticket) :
    ((empty.run codec steps).view key).ticket = some ticket ↔
      lastTicket codec key steps = some ticket ∧ ¬ Lapsed codec key steps ∧
        ¬ Expired codec key steps := by
  induction steps using List.reverseRecOn with
  | nil => simp [run, view, ticket?, empty, lastTicket, lastOf, updates]
  | append_singleton steps op ih =>
    rw [view_run_concat]
    cases op with
    | update u =>
      simp only [lastTicket, Lapsed, Expired] at ih ⊢
      rw [KeyView.step_update, lastOf_update, sweptSince_update, sweptSince_update]
      cases hgiven : u.ticketFor? codec key with
      | none => simpa using ih
      | some given => simp
    | sweep rule =>
      have hlast : lastTicket codec key (steps ++ [.sweep rule]) = lastTicket codec key steps :=
        lastOf_sweep _ steps rule
      rw [hlast, Lapsed, sweptSince_sweep, Expired, sweptSince_sweep]
      simp only [KeyView.step, KeyView.sweep]
      constructor
      · intro hkept
        split_ifs at hkept with hwithdrawn
        obtain ⟨hticket, hcurrent⟩ := Option.filter_eq_some_iff.mp hkept
        obtain ⟨hgiven, hlapsed, hexpired⟩ := ih.mp hticket
        refine ⟨hgiven, ?_, ?_⟩
        · rintro (⟨haged, hcommand⟩ | hearlier)
          · exact hwithdrawn ⟨marked_of_lastTicket hgiven hlapsed hcommand, haged⟩
          · exact hlapsed hearlier
        · rintro (⟨other, hother, hover⟩ | hearlier)
          · rw [hgiven] at hother
            cases hother
            simp [hover] at hcurrent
          · exact hexpired hearlier
      · rintro ⟨hgiven, hlapsed, hexpired⟩
        have hticket := ih.mpr ⟨hgiven, fun h ↦ hlapsed (.inr h), fun h ↦ hexpired (.inr h)⟩
        rw [if_neg, hticket, Option.filter_some, if_pos]
        · rw [Bool.not_eq_true', ← Bool.not_eq_true]
          exact fun hover ↦ hexpired (.inl ⟨ticket, hgiven, hover⟩)
        · rintro ⟨hmarked, haged⟩
          obtain ⟨⟨c, hc, hactive⟩, -⟩ := (marked_run steps).mp hmarked
          refine hlapsed (.inl ⟨haged, ?_⟩)
          rw [hc]
          exact fun h ↦ hactive (Option.some.inj h)

end Store

end TicketPool

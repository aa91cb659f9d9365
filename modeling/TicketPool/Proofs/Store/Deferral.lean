import TicketPool.Proofs.Store.Convergence
import TicketPool.Proofs.Store.Presence
import TicketPool.Proofs.Store.Replay

/-!
# Sweeps put off to the end

A store that is swept now and then is compared with one that takes all updates first and is
swept once.  The sweeps on the way are noticed only if a key is activated that one of them has
found aged: its ticket is gone in one store, and matched again in the other.
-/

namespace TicketPool

namespace StoreStep

/-- Whether a step is a sweep that finds a key aged which a second step activates. -/
def Outruns : StoreStep → StoreStep → Prop
  | .sweep rule, .update u =>
    u.command = .activate ∧ isAged rule.now.millis rule.ticketTtl.millis u.key = true
  | _, _ => False

instance : DecidableRel Outruns
  | .sweep _, .update _ => inferInstanceAs (Decidable (_ ∧ _))
  | .sweep _, .sweep _ => isFalse id
  | .update _, _ => isFalse id

/-- No key is activated that an earlier sweep has found aged. -/
def Prompt (steps : List StoreStep) : Prop :=
  steps.Pairwise fun a b ↦ ¬ Outruns a b

instance (steps : List StoreStep) : Decidable (Prompt steps) :=
  inferInstanceAs (Decidable (List.Pairwise _ _))

variable {codec : Codec} {key : String} {steps : List StoreStep}

/-- A ticket that prompt activation keeps has not lapsed.  A sweep that finds the key aged before
its activation would be followed by that activation. -/
theorem Prompt.not_lapsed (h : Prompt steps)
    (hcommand : lastCommand codec key steps = some .activate) : ¬ Lapsed codec key steps := by
  rintro ⟨before, rule, after, rfl, ⟨haged, hbefore⟩, -⟩
  have hsplit : lastCommand codec key (before ++ .sweep rule :: after) =
      (lastCommand codec key after).or (lastCommand codec key before) := by
    rw [lastCommand, lastOf_append, ← List.singleton_append, lastOf_append]
    simp [lastOf, updates]
  rw [hsplit] at hcommand
  cases hlater : lastCommand codec key after with
  | none => exact hbefore (by simpa [hlater] using hcommand)
  | some c =>
    obtain rfl : c = .activate := by simpa [hlater] using hcommand
    obtain ⟨middle, u, rest, rfl, hu, -⟩ := exists_split_of_lastOf hlater
    obtain ⟨rfl, hactivate⟩ := Update.activates_of_commandFor? hu
    have hapart := (List.pairwise_cons.mp (List.pairwise_append.mp h).2.1).1 (.update u) (by simp)
    exact hapart ⟨hactivate, haged⟩

theorem not_lapsed_map_update (us : List Update) : ¬ Lapsed codec key (us.map .update) := by
  rintro ⟨before, rule, after, hsteps, -⟩
  have hsweep : StoreStep.sweep rule ∈ us.map .update := by simp [hsteps]
  simp at hsweep

end StoreStep

namespace Store

open StoreStep

/-- If no key is activated that a sweep has found aged before, and the milliseconds of the sweeps
do not pass those of the last one, then the sweeps before the last one leave no trace. -/
theorem run_prompt_eq_swept_once (codec : Codec) (steps : List StoreStep) (last : SweepRule)
    (hlast : last.Closes steps)
    (hmillis : ∀ rule, .sweep rule ∈ steps → rule.now.millis ≤ last.now.millis)
    (hprompt : Prompt steps) :
    empty.run codec (steps ++ [.sweep last]) = replay codec (updates steps) last := by
  have hsame : updates steps = updates ((updates steps).map .update) :=
    (updates_map_update _).symm
  have hunswept : last.Closes ((updates steps).map .update) := by
    intro rule hrule
    simp at hrule
  have hbound : ∀ rule, .sweep rule ∈ steps ++ (updates steps).map .update →
      rule.now.millis ≤ last.now.millis := by
    intro rule hrule
    refine hmillis rule ((List.mem_append.mp hrule).resolve_right fun h ↦ ?_)
    simp at h
  have hfate : ∀ key, SameFate codec last steps ((updates steps).map .update) key := by
    intro key
    refine (sameFate_iff hsame hlast hunswept hbound).mpr fun _ _ _ hcommand ↦ ?_
    exact iff_of_false (hprompt.not_lapsed hcommand) (not_lapsed_map_update _)
  have hswept : replay codec (updates steps) last =
      empty.run codec ((updates steps).map .update ++ [.sweep last]) := by
    rw [replay, run, run, List.foldl_append]
    rfl
  rw [hswept]
  exact eq_of_view fun key ↦ (view_closed_eq_iff hsame hlast hunswept).mpr (hfate key)

def tenMinuteRule (now : Instant) : SweepRule where
  now := now
  ticketTtl := .ofMillis 600000
  assignmentTtl := .ofMillis 1200000

/-- The last millisecond of a leap second, and the instant behind it. -/
def leapEnd : Instant :=
  ⟨1700001059, 1999000000, by decide, by decide, by decide⟩

def nextMinute : Instant :=
  ⟨1700001060, 0, by decide, by decide, by decide⟩

def creation (key : String) : StoreStep :=
  .update ⟨.createTicket, key, "\x7b\"expiration_time\":\"2030-01-01T00:00:00Z\"\x7d"⟩

/-- Milliseconds run ahead in a leap second, so a sweep in it may find a ticket aged that the next
sweep still keeps. -/
theorem leap_second_noticed :
    let steps := [creation "1700000460500-0", .sweep (tenMinuteRule leapEnd)]
    let last := tenMinuteRule nextMinute
    last.Closes steps ∧ Prompt steps ∧
      empty.run .json (steps ++ [.sweep last]) ≠ replay .json (updates steps) last := by
  intro steps last
  refine ⟨?_, by decide +kernel, ?_⟩
  · intro rule hrule
    obtain rfl : rule = tenMinuteRule leapEnd := by simpa [steps, creation] using hrule
    exact ⟨rfl, rfl, by decide⟩
  · intro hsame
    have hkept := congrArg (fun s ↦ s.containsTicket "1700000460500-0") hsame
    revert hkept
    decide +kernel

/-- A ticket is dropped on the way, another is activated and aged, and a third is withdrawn. -/
def busyDay : List StoreStep :=
  [creation "1700000000000-0", creation "1700000300000-0", creation "1700000900000-0",
    .update (.activate "1700000300000-0"), .update (.activate "1700000900000-0"),
    .sweep (tenMinuteRule (.ofMillis 1700000700000)),
    .update (.deactivate "1700000900000-0"), .update (.assign "1700000000000-0" "unreadable"),
    .update (.activate "1700000900000-0"), .sweep (tenMinuteRule leapEnd)]

theorem busyDay_swept_once :
    let last := tenMinuteRule (.ofMillis 1700001600000)
    last.Closes busyDay ∧ Prompt busyDay ∧
      (empty.run .json (busyDay ++ [.sweep last])).isActive "1700000300000-0" = true ∧
      (empty.run .json (busyDay ++ [.sweep last])).containsTicket "1700000000000-0" = false ∧
      empty.run .json (busyDay ++ [.sweep last]) = replay .json (updates busyDay) last := by
  intro last
  have hrules : ∀ rule, .sweep rule ∈ busyDay →
      rule = tenMinuteRule (.ofMillis 1700000700000) ∨ rule = tenMinuteRule leapEnd := by
    intro rule hrule
    simpa [busyDay, creation] using hrule
  have hclosed : last.Closes busyDay := by
    intro rule hrule
    rcases hrules rule hrule with rfl | rfl <;> exact ⟨rfl, rfl, by decide⟩
  have hmillis : ∀ rule, .sweep rule ∈ busyDay → rule.now.millis ≤ last.now.millis := by
    intro rule hrule
    rcases hrules rule hrule with rfl | rfl <;> decide
  have hprompt : Prompt busyDay := by decide +kernel
  refine ⟨hclosed, hprompt, by decide +kernel, by decide +kernel, ?_⟩
  exact run_prompt_eq_swept_once .json busyDay last hclosed hmillis hprompt

end Store

end TicketPool

import Mathlib.Algebra.BigOperators.Group.List.Basic
import Mathlib.Algebra.GroupWithZero.Nat
import Mathlib.Algebra.Order.Group.Nat
import TicketPool.Time.Calendar

/-!
# Counting days

The date that comes a number of days after the first of January 1970 is a day of the calendar, and
it comes that number of days after it.
-/

namespace TicketPool.Date

theorem daysBeforeYear_mono {a b : Int} (h : a ≤ b) : daysBeforeYear a ≤ daysBeforeYear b := by
  unfold daysBeforeYear
  omega

/-- The guess is off by one at most. -/
theorem yearOf_spec (n : Int) :
    daysBeforeYear (yearOf n) ≤ n ∧ n < daysBeforeYear (yearOf n + 1) := by
  unfold yearOf
  simp only
  split_ifs <;> unfold daysBeforeYear at * <;> omega

theorem daysBeforeYear_succ (year : Int) :
    daysBeforeYear (year + 1) = daysBeforeYear year + (months.map (monthLength year)).sum := by
  have hsum : (months.map (monthLength year)).sum = if isLeap year then 366 else 365 := by
    cases hleap : isLeap year <;> simp [months, monthLength, hleap]
  rw [hsum]
  unfold daysBeforeYear isLeap
  simp only [Bool.and_eq_true, Bool.or_eq_true, decide_eq_true_eq]
  split_ifs <;> omega

/-- The months are counted off one by one.  The lengths of those that were counted off and the day
within the month add up to the days at the start. -/
theorem monthDay_spec {year : Int} {list : List Nat} (hsorted : list.Pairwise (· < ·)) {rest : Nat}
    (h : rest < (list.map (monthLength year)).sum) :
    (monthDay year rest list).1 ∈ list ∧ 1 ≤ (monthDay year rest list).2 ∧
      (monthDay year rest list).2 ≤ monthLength year (monthDay year rest list).1 ∧
      ((list.takeWhile (· < (monthDay year rest list).1)).map (monthLength year)).sum +
        (monthDay year rest list).2 = rest + 1 := by
  induction list generalizing rest with
  | nil => exact absurd h (Nat.not_lt_zero rest)
  | cons month later ih =>
    rw [List.map_cons, List.sum_cons] at h
    obtain ⟨hfirst, hlater⟩ := List.pairwise_cons.mp hsorted
    by_cases hmonth : rest < monthLength year month
    · rw [monthDay, if_pos hmonth]
      exact ⟨List.mem_cons_self, Nat.succ_pos rest, hmonth, by simp⟩
    · rw [monthDay, if_neg hmonth]
      have hless : rest - monthLength year month < (later.map (monthLength year)).sum := by omega
      obtain ⟨hmem, hday, hlength, hsum⟩ := ih hlater hless
      refine ⟨List.mem_cons_of_mem _ hmem, hday, hlength, ?_⟩
      rw [List.takeWhile_cons_of_pos (by simpa using hfirst _ hmem), List.map_cons, List.sum_cons]
      omega

theorem ofDays_spec (n : Int) : (ofDays n).IsValid ∧ (ofDays n).toDays = n := by
  obtain ⟨hyear, hnext⟩ := yearOf_spec (n + epoch)
  rw [daysBeforeYear_succ] at hnext
  have hrest : (n + epoch - daysBeforeYear (yearOf (n + epoch))).toNat <
      (months.map (monthLength (yearOf (n + epoch)))).sum := by omega
  obtain ⟨hmonth, hday, hlength, hsum⟩ := monthDay_spec (by decide) hrest
  have hcount : daysBeforeMonth (ofDays n).year (ofDays n).month + (ofDays n).day =
      (n + epoch - daysBeforeYear (yearOf (n + epoch))).toNat + 1 := by
    rw [daysBeforeMonth, ← List.sum_eq_foldl]
    exact hsum
  have hsame : (ofDays n).year = yearOf (n + epoch) := rfl
  refine ⟨⟨hmonth, hday, hlength⟩, ?_⟩
  rw [toDays, hsame]
  rw [hsame] at hcount
  omega

/-- The days of a range of years. -/
theorem year_ofDays {n first last : Int} (hfirst : daysBeforeYear first ≤ n + epoch)
    (hlast : n + epoch < daysBeforeYear (last + 1)) :
    first ≤ (ofDays n).year ∧ (ofDays n).year ≤ last := by
  obtain ⟨hyear, hnext⟩ := yearOf_spec (n + epoch)
  have hsame : (ofDays n).year = yearOf (n + epoch) := rfl
  rw [hsame]
  constructor
  · by_contra hbelow
    have hmono := daysBeforeYear_mono (a := yearOf (n + epoch) + 1) (b := first) (by omega)
    omega
  · by_contra habove
    have hmono := daysBeforeYear_mono (a := last + 1) (b := yearOf (n + epoch)) (by omega)
    omega

end TicketPool.Date

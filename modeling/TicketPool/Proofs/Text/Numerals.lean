import Mathlib.Algebra.Order.Group.Nat
import Mathlib.Data.List.Induction
import Mathlib.Data.List.TakeWhile
import Mathlib.Tactic.IntervalCases
import TicketPool.Text.Digit

/-!
# Runs of digits

What numerals and padded numerals are made of, the number that a run of digits stands for, and how
far a run of digits goes in a text.
-/

namespace TicketPool.Digit

theorem toNat_of_isDigit {c : Char} (h : c.isDigit = true) : 48 ≤ c.toNat ∧ c.toNat ≤ 57 := by
  simp only [Char.isDigit, Bool.and_eq_true, decide_eq_true_eq, ge_iff_le,
    UInt32.le_iff_toNat_le] at h
  exact h

theorem isDigit_of_mem_padded {width n : Nat} {c : Char} (h : c ∈ padded width n) : c.isDigit := by
  rcases List.mem_append.mp h with hzero | hdigit
  · rw [List.eq_of_mem_replicate hzero]
    rfl
  · exact isDigit_of_mem_numeral hdigit

theorem weight_pos (places : Nat) : 0 < weight places :=
  Nat.pow_pos (by decide)

theorem weight_mono {k l : Nat} (h : k ≤ l) : weight k ≤ weight l :=
  Nat.pow_le_pow_right (by decide) h

theorem weight_add (k l : Nat) : weight (k + l) = weight k * weight l :=
  Nat.pow_add 10 k l

theorem number_append (front back : List Char) :
    number (front ++ back) = number front * weight back.length + number back := by
  rw [number, Nat.ofDigitChars_append, Nat.ofDigitChars_eq_ofDigitChars_zero]
  exact congrArg (· + number back) (Nat.mul_comm _ _)

theorem number_lt {run : List Char} (h : ∀ c ∈ run, c.isDigit = true) :
    number run < weight run.length := by
  induction run using List.reverseRecOn with
  | nil => exact Nat.one_pos
  | append_singleton front c ih =>
    have hfront := ih fun d hd ↦ h d (List.mem_append_left _ hd)
    have hbounds := toNat_of_isDigit (h c (by simp))
    have hlast : number [c] = c.toNat - 48 := by
      change 10 * 0 + (c.toNat - 48) = _
      omega
    have htens : weight (front ++ [c]).length = 10 * weight front.length := by
      rw [List.length_append]
      exact Nat.pow_succ'
    have hten : weight [c].length = 10 := rfl
    rw [number_append, hlast, htens, hten]
    omega

theorem word?_eq_some_iff {run : List Char} {w : UInt64} :
    word? run = some w ↔ run ≠ [] ∧ (∀ c ∈ run, c.isDigit = true) ∧ w.toNat = number run := by
  simp only [word?, List.all_eq_true, Option.ite_none_right_eq_some, Option.some.injEq]
  constructor
  · rintro ⟨⟨hne, hdigits, hfits⟩, rfl⟩
    exact ⟨hne, hdigits, UInt64.toNat_ofNat_of_lt hfits⟩
  · rintro ⟨hne, hdigits, hvalue⟩
    rw [← hvalue]
    exact ⟨⟨hne, hdigits, w.toNat_lt⟩, UInt64.ofNat_toNat⟩

theorem number_zeros (k : Nat) : number (List.replicate k '0') = 0 :=
  Nat.ofDigitChars_replicate_zero.trans (Nat.mul_zero _)

@[simp] theorem number_padded (width n : Nat) : number (padded width n) = n := by
  rw [padded, number, Nat.ofDigitChars_append, Nat.ofDigitChars_replicate_zero, Nat.mul_zero]
  exact number_numeral n

theorem length_padded {width n : Nat} (hwidth : 0 < width) (h : n < 10 ^ width) :
    (padded width n).length = width := by
  have hlength := (Nat.length_toDigits_le_iff (b := 10) (by decide) hwidth).mpr h
  rw [padded, List.length_append, List.length_replicate]
  change width - (numeral n).length + (numeral n).length = width
  exact Nat.sub_add_cancel hlength

theorem padded_ne_nil (width n : Nat) : padded width n ≠ [] :=
  List.append_ne_nil_of_right_ne_nil _ (numeral_ne_nil n)

theorem head?_numeral {n : Nat} (h : 0 < n) : (numeral n).head? ≠ some '0' := by
  induction n using Nat.strongRecOn with
  | _ n ih =>
    rw [numeral, Nat.toDigits_eq_if (by decide)]
    split_ifs with hsmall
    · rw [List.head?_cons, Ne, Option.some.injEq]
      interval_cases n <;> decide
    · have hless := ih (n / 10) (by omega) (by omega)
      obtain ⟨c, rest, hrun⟩ := List.exists_cons_of_ne_nil (numeral_ne_nil (n / 10))
      change (numeral (n / 10) ++ _).head? ≠ some '0'
      rw [hrun] at hless ⊢
      exact hless

/-- A number has at least the weight of its first digit. -/
theorem weight_length_le {n : Nat} (h : 0 < n) : weight ((numeral n).length - 1) ≤ n := by
  rcases Nat.eq_zero_or_pos ((numeral n).length - 1) with hone | hmore
  · rw [hone]
    exact h
  · have hlength := (Nat.length_toDigits_le_iff (n := n) (b := 10) (by decide) hmore).not
    exact Nat.not_lt.mp (hlength.mp (Nat.not_le.mpr (Nat.sub_lt (by omega) (by decide))))

/-- Whether a text does not go on with a digit. -/
def Stops (text : List Char) : Prop :=
  ∀ c ∈ text.head?, c.isDigit = false

theorem takeWhile_isDigit {run rest : List Char} (hrun : ∀ c ∈ run, c.isDigit = true)
    (hrest : Stops rest) : (run ++ rest).takeWhile Char.isDigit = run := by
  rw [List.takeWhile_append_of_pos hrun]
  cases rest with
  | nil => simp
  | cons c rest => simp [hrest c rfl]

theorem dropWhile_isDigit {run rest : List Char} (hrun : ∀ c ∈ run, c.isDigit = true)
    (hrest : Stops rest) : (run ++ rest).dropWhile Char.isDigit = rest := by
  rw [List.dropWhile_append_of_pos hrun]
  cases rest with
  | nil => rfl
  | cons c rest => simp [hrest c rfl]

end TicketPool.Digit

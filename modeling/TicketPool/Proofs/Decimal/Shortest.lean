import TicketPool.Decimal.Shortest
import TicketPool.Proofs.Decimal.Rounding
import TicketPool.Proofs.Text.Numerals

/-!
# The size of the shortest decimal number

The decimal number that a finite double is printed as is positive and lies below the least number
that is too large for a double.
-/

namespace TicketPool.Binary64

/-- The least number that rounds to infinity, half way between the largest double and the next
power of two. -/
def overflow : Nat :=
  2 ^ 1024 - 2 ^ 970

theorem twoTo_mono {k l : Nat} (h : k ≤ l) : twoTo k ≤ twoTo l :=
  Nat.pow_le_pow_right (by decide) h

variable {x : Binary64}

theorem interval_denominator_pos (x : Binary64) : 0 < x.interval.denominator :=
  Nat.mul_pos (by decide) (twoTo_pos _)

/-- The numbers that round to a finite double lie below the overflow.  The interval may reach up to
it, but is then open, since the last significand is odd. -/
theorem interval_high_lt (hx : x.isFinite = true) :
    x.interval.high ≤ overflow * x.interval.denominator ∧
      (x.interval.closed = true → x.interval.high < overflow * x.interval.denominator) := by
  have hscale : x.scale.toNat ≤ 971 := by
    rw [isFinite, decide_eq_true_eq] at hx
    unfold scale
    omega
  have hsignificand : x.significand + 1 ≤ 2 * hiddenBit := by
    have hrest := Nat.mod_lt x.magnitude (show 0 < hiddenBit by decide)
    unfold significand
    split_ifs <;> omega
  have hunit : twoTo x.scale.toNat ≤ twoTo 971 := twoTo_mono hscale
  have hdenominator : overflow * 4 ≤ overflow * x.interval.denominator :=
    Nat.mul_le_mul_left _ (Nat.le_mul_of_pos_right 4 (twoTo_pos _))
  constructor
  · calc
      x.interval.high ≤ (8 * hiddenBit - 2) * twoTo 971 := Nat.mul_le_mul (by omega) hunit
      _ = overflow * 4 := by decide +kernel
      _ ≤ overflow * x.interval.denominator := hdenominator
  · intro hclosed
    have heven : x.significand % 2 = 0 := of_decide_eq_true hclosed
    have hodd : 2 * hiddenBit % 2 = 0 := by decide
    calc
      x.interval.high ≤ (8 * hiddenBit - 6) * twoTo 971 := Nat.mul_le_mul (by omega) hunit
      _ < overflow * 4 := by decide +kernel
      _ ≤ overflow * x.interval.denominator := hdenominator

theorem interval_low_pos (hx : x.isZero = false) : 0 < x.interval.low := by
  have hmagnitude : x.magnitude ≠ 0 := of_decide_eq_false hx
  have hsignificand : 0 < x.significand := by
    have hparts := Nat.div_add_mod x.magnitude hiddenBit
    unfold significand exponentBits
    split_ifs with hzero
    · rw [hzero] at hparts
      omega
    · exact Nat.add_pos_right _ (by decide)
  refine Nat.mul_pos ?_ (twoTo_pos _)
  split_ifs <;> omega

namespace Interval

variable {i : Interval} {n : Nat} {k : Int}

theorem holds_of_nearest? (h : i.nearest? k = some n) : i.holds n k = true := by
  unfold nearest? at h
  dsimp only at h
  split_ifs at h <;> cases h <;> assumption

/-- The search ends with a number in the interval, or else with the integer below the value. -/
theorem search_spec (i : Interval) (k : Int) (fuel : Nat) :
    i.holds (i.search k fuel).digits (i.search k fuel).exponent = true ∨
      i.search k fuel = ⟨i.value / i.denominator, 0⟩ := by
  induction fuel generalizing k with
  | zero => exact .inr rfl
  | succ fuel ih =>
    unfold search
    cases hfound : i.nearest? k with
    | none => exact ih (k - 1)
    | some n => exact .inl (holds_of_nearest? hfound)

theorem le_of_holds (h : i.holds n k = true) :
    i.low * Digit.weight (-k).toNat ≤ n * Digit.weight k.toNat * i.denominator := by
  unfold holds at h
  dsimp only at h
  split_ifs at h with hclosed <;> rw [Bool.and_eq_true, decide_eq_true_eq] at h
  · exact h.1
  · exact h.1.le

theorem lt_of_holds {bound : Nat} (hle : i.high ≤ bound * i.denominator)
    (hlt : i.closed = true → i.high < bound * i.denominator) (h : i.holds n k = true) :
    n * Digit.weight k.toNat < bound * Digit.weight (-k).toNat := by
  have hweight := Digit.weight_pos (-k).toNat
  have hscaled : n * Digit.weight k.toNat * i.denominator <
      bound * i.denominator * Digit.weight (-k).toNat := by
    unfold holds at h
    dsimp only at h
    split_ifs at h with hclosed <;>
      rw [Bool.and_eq_true, decide_eq_true_eq, decide_eq_true_eq] at h
    · exact h.2.trans_lt (Nat.mul_lt_mul_of_pos_right (hlt hclosed) hweight)
    · exact h.2.trans_le (Nat.mul_le_mul_right _ hle)
  rw [Nat.mul_right_comm bound] at hscaled
  exact Nat.lt_of_mul_lt_mul_right hscaled

end Interval

/-- A search that comes to a grid with a point in the interval ends there or before. -/
theorem Interval.search_of_found {i : Interval} {n : Nat} {least k : Int} {fuel : Nat}
    (hfound : i.nearest? least = some n) (hk : least ≤ k) (hfuel : k < least + fuel) :
    i.search k fuel = ⟨n, least⟩ ∨ least < (i.search k fuel).exponent ∧
      i.holds (i.search k fuel).digits (i.search k fuel).exponent = true := by
  induction fuel generalizing k with
  | zero => omega
  | succ fuel ih =>
    unfold search
    rcases Int.le_iff_lt_or_eq.mp hk with hless | rfl
    · cases hnearest : i.nearest? k with
      | none => exact ih (by omega) (by push_cast at hfuel; omega)
      | some m => exact .inr ⟨hless, holds_of_nearest? hnearest⟩
    · rw [hfound]
      exact .inl rfl

theorem shortest_lt_of_high {bound : Nat}
    (hle : x.interval.high ≤ bound * x.interval.denominator)
    (hlt : x.interval.closed = true → x.interval.high < bound * x.interval.denominator) :
    x.shortest.digits * Digit.weight x.shortest.exponent.toNat <
      bound * Digit.weight (-x.shortest.exponent).toNat := by
  rcases x.interval.search_spec
    (leadingExponent x.interval.value x.interval.denominator + 1) 20 with hholds | hinteger
  · exact Interval.lt_of_holds hle hlt hholds
  · have hvalue : x.interval.value < x.interval.high :=
      Nat.mul_lt_mul_of_pos_right (by omega) (twoTo_pos _)
    rw [shortest, hinteger]
    change x.interval.value / x.interval.denominator * 1 < bound * 1
    rw [Nat.mul_one, Nat.mul_one, Nat.div_lt_iff_lt_mul (interval_denominator_pos x)]
    exact hvalue.trans_le hle

/-- A finite double is printed as a number below the overflow. -/
theorem shortest_lt (hx : x.isFinite = true) :
    x.shortest.digits * Digit.weight x.shortest.exponent.toNat <
      overflow * Digit.weight (-x.shortest.exponent).toNat :=
  shortest_lt_of_high (interval_high_lt hx).1 (interval_high_lt hx).2

/-- Only an integer can be printed as zero. -/
theorem shortest_exponent_eq_zero (hx : x.isZero = false) (hdigits : x.shortest.digits = 0) :
    x.shortest.exponent = 0 := by
  rcases x.interval.search_spec
    (leadingExponent x.interval.value x.interval.denominator + 1) 20 with hholds | hinteger
  · have hlow : x.interval.low * Digit.weight (-x.shortest.exponent).toNat ≤
        x.shortest.digits * Digit.weight x.shortest.exponent.toNat * x.interval.denominator :=
      Interval.le_of_holds hholds
    have hpos := Nat.mul_pos (interval_low_pos hx)
      (Digit.weight_pos (-x.shortest.exponent).toNat)
    rw [hdigits, Nat.zero_mul, Nat.zero_mul] at hlow
    exact absurd hlow (Nat.not_le.mpr hpos)
  · rw [shortest, hinteger]

/-- The doubles of the last power of two, but for the power itself. -/
def InLastBinade (x : Binary64) : Prop :=
  x.exponentBits = 2046 ∧ x.significand ≠ hiddenBit

/-- A little more than half of the overflow. -/
def halfOverflow : Nat :=
  2 ^ 1023 + 2 ^ 971

theorem shortest_lt_of_not_last (hx : x.isFinite = true) (hlast : ¬ x.InLastBinade) :
    x.shortest.digits * Digit.weight x.shortest.exponent.toNat <
      halfOverflow * Digit.weight (-x.shortest.exponent).toNat := by
  rw [isFinite, decide_eq_true_eq] at hx
  have hdenominator : halfOverflow * 4 ≤ halfOverflow * x.interval.denominator :=
    Nat.mul_le_mul_left _ (Nat.le_mul_of_pos_right 4 (twoTo_pos _))
  have hhigh : x.interval.high < halfOverflow * x.interval.denominator := by
    by_cases hbits : x.exponentBits = 2046
    · have hpower : x.significand = hiddenBit := by
        by_contra hother
        exact hlast ⟨hbits, hother⟩
      have hscale : x.scale.toNat ≤ 971 := by
        unfold scale
        omega
      calc
        x.interval.high ≤ (4 * hiddenBit + 2) * twoTo 971 :=
          Nat.mul_le_mul (by omega) (twoTo_mono hscale)
        _ < halfOverflow * 4 := by decide +kernel
        _ ≤ halfOverflow * x.interval.denominator := hdenominator
    · have hscale : x.scale.toNat ≤ 970 := by
        unfold scale
        omega
      have hsignificand := significand_le x
      calc
        x.interval.high ≤ (8 * hiddenBit + 2) * twoTo 970 :=
          Nat.mul_le_mul (by omega) (twoTo_mono hscale)
        _ < halfOverflow * 4 := by decide +kernel
        _ ≤ halfOverflow * x.interval.denominator := hdenominator
  exact shortest_lt_of_high hhigh.le fun _ ↦ hhigh

theorem interval_of_last (hlast : x.InLastBinade) :
    x.interval = { low := (4 * x.significand - 2) * twoTo 971
                   value := 4 * x.significand * twoTo 971
                   high := (4 * x.significand + 2) * twoTo 971
                   denominator := 4
                   closed := x.significand % 2 = 0 } := by
  have hscale : x.scale = 971 := by
    rw [scale, hlast.1]
    rfl
  simp only [interval, hscale, hlast.2, false_and, if_false]
  rfl

theorem significand_of_last (hlast : x.InLastBinade) :
    hiddenBit ≤ x.significand ∧ x.significand < 2 * hiddenBit := by
  have hrest := Nat.mod_lt x.magnitude (show 0 < hiddenBit by decide)
  rw [significand, if_neg (by rw [hlast.1]; decide)]
  omega

/-- In the last power of two the doubles lie so far apart that each has a multiple of `10^292`
next to it. -/
theorem nearest?_of_last (hlast : x.InLastBinade) :
    ∃ n ≤ 17976931348623157, x.interval.nearest? 292 = some n := by
  obtain ⟨hleast, hmost⟩ := significand_of_last hlast
  set unit := twoTo 971 with hunit
  set grid := 4 * Digit.weight 292 with hgrid
  have hgap : grid < 4 * unit := by decide +kernel
  have hlargest : 8 * ((2 * hiddenBit - 1) * unit) + grid < 2 * (17976931348623158 * grid) := by
    decide +kernel
  have hvalue : x.significand * unit ≤ (2 * hiddenBit - 1) * unit :=
    Nat.mul_le_mul_right _ (by omega)
  have hunits : unit ≤ x.significand * unit := Nat.le_mul_of_pos_left _ (by omega)
  have hpos : 0 < grid := Nat.mul_pos (by decide) (Digit.weight_pos 292)
  set best := roundDiv (4 * x.significand * unit) grid with hbest
  obtain ⟨habove, hbelow⟩ := roundDiv_near (4 * x.significand * unit) hpos
  rw [← hbest, Nat.mul_assoc 4] at habove hbelow
  refine ⟨best, ?_, ?_⟩
  · by_contra hlarge
    have hmore : 17976931348623158 * grid ≤ best * grid := Nat.mul_le_mul_right _ (by omega)
    omega
  · have hlow : (4 * x.significand - 2) * unit < best * grid := by
      rw [Nat.sub_mul, Nat.mul_assoc]
      omega
    have hhigh : best * grid < (4 * x.significand + 2) * unit := by
      rw [Nat.add_mul, Nat.mul_assoc]
      omega
    have hscaled : best * Digit.weight 292 * 4 = best * grid := by
      rw [hgrid, Nat.mul_assoc, Nat.mul_comm (Digit.weight 292)]
    have hone : Digit.weight (-292 : Int).toNat = 1 := rfl
    have hholds : x.interval.holds best 292 = true := by
      have hweight : Digit.weight (292 : Int).toNat = Digit.weight 292 := rfl
      simp only [Interval.holds, interval_of_last hlast, hone, hweight, hscaled, Nat.mul_one]
      split_ifs <;> rw [Bool.and_eq_true, decide_eq_true_eq, decide_eq_true_eq]
      · exact ⟨hlow.le, hhigh.le⟩
      · exact ⟨hlow, hhigh⟩
    have hround : roundDiv (x.interval.value * Digit.weight (-292 : Int).toNat)
        (x.interval.denominator * Digit.weight (292 : Int).toNat) = best := by
      rw [interval_of_last hlast, hone, Nat.mul_one]
      rfl
    simp only [Interval.nearest?, hround, hholds, if_true]

theorem leadingExponent_of_last (hlast : x.InLastBinade) :
    307 ≤ leadingExponent x.interval.value x.interval.denominator ∧
      leadingExponent x.interval.value x.interval.denominator ≤ 308 := by
  obtain ⟨hleast, hmost⟩ := significand_of_last hlast
  have hlow : 10 ^ 307 ≤ x.significand * twoTo 971 :=
    le_trans (by decide +kernel : 10 ^ 307 ≤ hiddenBit * twoTo 971) (Nat.mul_le_mul_right _ hleast)
  have hhigh : x.significand * twoTo 971 < 10 ^ 309 :=
    (Nat.mul_le_mul_right _ hmost.le).trans_lt
      (by decide +kernel : 2 * hiddenBit * twoTo 971 < 10 ^ 309)
  have hquotient : 4 * x.significand * twoTo 971 / 4 = x.significand * twoTo 971 := by
    rw [Nat.mul_assoc, Nat.mul_div_cancel_left _ (by decide)]
  have hden : 4 ≤ 4 * x.significand * twoTo 971 := by
    rw [Nat.mul_assoc]
    exact Nat.le_mul_of_pos_right 4 ((Nat.pow_pos (by decide)).trans_le hlow)
  have hmore := (Nat.length_toDigits_le_iff (b := 10) (by decide) (by decide)).not.mpr
    (Nat.not_lt.mpr hlow)
  have hless := (Nat.length_toDigits_le_iff (b := 10) (by decide) (by decide)).mpr hhigh
  simp only [interval_of_last hlast, leadingExponent, if_pos hden, hquotient, Digit.numeral]
  omega

theorem shortest_of_last (hlast : x.InLastBinade) :
    292 ≤ x.shortest.exponent ∧
      (x.shortest.exponent = 292 → x.shortest.digits ≤ 17976931348623157) := by
  obtain ⟨n, hn, hnearest⟩ := nearest?_of_last hlast
  obtain ⟨hleast, hmost⟩ := leadingExponent_of_last hlast
  have hsearch : x.shortest = ⟨n, 292⟩ ∨ 292 < x.shortest.exponent ∧
      x.interval.holds x.shortest.digits x.shortest.exponent = true :=
    Interval.search_of_found hnearest (by omega) (by omega)
  rcases hsearch with hfound | ⟨hless, -⟩
  · rw [hfound]
    exact ⟨le_refl _, fun _ ↦ hn⟩
  · exact ⟨hless.le, fun hsame ↦ absurd hsame hless.ne'⟩

theorem exists_zeros (run : List Char) :
    ∃ zeros, run = (run.reverse.dropWhile (· = '0')).reverse ++ List.replicate zeros '0' := by
  have hzeros : ∀ c ∈ (run.reverse.takeWhile (· = '0')).reverse, c = '0' := by
    intro c hc
    have hpassed := List.all_takeWhile (p := fun c ↦ decide (c = '0')) (l := run.reverse)
    exact of_decide_eq_true (List.all_eq_true.mp hpassed c (List.mem_reverse.mp hc))
  refine ⟨(run.reverse.takeWhile (· = '0')).reverse.length, ?_⟩
  rw [← List.eq_replicate_of_mem hzeros, ← List.reverse_append, List.takeWhile_append_dropWhile,
    List.reverse_reverse]

/-- The digits of a decimal number stand in its numeral, in front of zeros that are cut off. -/
theorem Decimal.scientific_spec (d : Decimal) :
    ∃ zeros, Digit.numeral d.digits = d.scientific.1 ++ List.replicate zeros '0' ∧
      d.scientific.2 = d.exponent + (d.scientific.1.length + zeros : Nat) - 1 := by
  obtain ⟨zeros, hsplit⟩ := exists_zeros (Digit.numeral d.digits)
  refine ⟨zeros, hsplit, ?_⟩
  have hlength := congrArg List.length hsplit
  rw [List.length_append, List.length_replicate] at hlength
  change d.exponent + ((Digit.numeral d.digits).length : Int) - 1 = _
  rw [hlength]
  rfl

theorem Decimal.isDigit_of_mem_scientific {d : Decimal} {c : Char} (hc : c ∈ d.scientific.1) :
    c.isDigit = true := by
  obtain ⟨zeros, hsplit, -⟩ := d.scientific_spec
  exact Digit.isDigit_of_mem_numeral (hsplit ▸ List.mem_append_left _ hc)

theorem Decimal.scientific_head {d : Decimal} (h : 0 < d.digits) :
    d.scientific.1 ≠ [] ∧ d.scientific.1.head? ≠ some '0' := by
  obtain ⟨zeros, hsplit, -⟩ := d.scientific_spec
  have hhead := Digit.head?_numeral h
  rw [hsplit] at hhead
  cases hdigits : d.scientific.1 with
  | nil =>
    rw [hdigits, List.nil_append] at hsplit hhead
    cases zeros with
    | zero => exact absurd hsplit (Digit.numeral_ne_nil _)
    | succ zeros => exact absurd rfl hhead
  | cons c rest =>
    rw [hdigits] at hhead
    exact ⟨List.cons_ne_nil c rest, hhead⟩

theorem Decimal.scientific_of_zero {d : Decimal} (h : d.digits = 0) : d.scientific.1 = [] := by
  rw [scientific, h]
  rfl

theorem Decimal.head?_scientific (d : Decimal) : d.scientific.1.head? ≠ some '0' := by
  rcases Nat.eq_zero_or_pos d.digits with hzero | hpos
  · simp [scientific_of_zero hzero]
  · exact (scientific_head hpos).2

/-- Only zero is printed without digits, and then the text is that of an integer. -/
theorem scientific_of_no_digits (hx : x.isZero = false) (h : x.shortest.scientific.1 = []) :
    x.shortest.scientific.2 = 0 := by
  have hdigits : x.shortest.digits = 0 := by
    by_contra hpos
    exact (Decimal.scientific_head (Nat.pos_of_ne_zero hpos)).1 h
  have hexponent := shortest_exponent_eq_zero hx hdigits
  change x.shortest.exponent + ((Digit.numeral x.shortest.digits).length : Int) - 1 = 0
  rw [hdigits, hexponent]
  rfl

end TicketPool.Binary64

import TicketPool.Json.Tree
import TicketPool.Proofs.Decimal.Shortest

/-!
# Scaling words

A reader of a numeral scales a word by a power of ten in two roundings.  The result is finite if
the power is negative, and also for every word that is gathered from the digits of the shortest
decimal number of a finite double: only words of nineteen digits could overflow below the bound,
and no double next to it needs so many.
-/

namespace TicketPool.Json.Numeral

open Binary64 Digit

variable {word k : Nat}

theorem isFinite_of_le {x y : Binary64} (h : x.magnitude ≤ y.magnitude) (hy : y.isFinite = true) :
    x.isFinite = true :=
  isFinite_iff.mpr (h.trans_lt (isFinite_iff.mp hy))

theorem ofNat_isFinite (hword : word < UInt64.size) : (ofNat word).isFinite = true :=
  isFinite_of_le (ofNat_mono hword.le) (by decide +kernel)

theorem tenPow_mono {k l : Nat} (h : k ≤ l) : (tenPow k).magnitude ≤ (tenPow l).magnitude :=
  ofNat_mono (weight_mono h)

theorem mul_le_mul {x y s t : Binary64} (hx : x.magnitude ≤ y.magnitude)
    (hs : s.magnitude ≤ t.magnitude) : (x.mul s).magnitude ≤ (y.mul t).magnitude := by
  refine (mul_mono hx s).trans ?_
  rw [mul_comm_of_mul y, mul_comm_of_mul y]
  exact mul_mono hs y

/-- A scaled word is finite if the largest word below the bound gives a finite double. -/
theorem scaleUp_isFinite {bound : Nat} (hword : word < UInt64.size)
    (hless : word * weight k < bound) (hbound : bound ≤ weight 309)
    (hlargest : k ≤ 308 →
      ((ofNat (min (UInt64.size - 1) (bound / weight k))).mul (tenPow k)).isFinite = true) :
    (scaleUp (ofNat word) k).isFinite = true := by
  unfold scaleUp
  split_ifs with hk hzero
  · refine isFinite_of_le (mul_mono (ofNat_mono (Nat.le_min.mpr ⟨by omega, ?_⟩)) _) (hlargest hk)
    exact (Nat.le_div_iff_mul_le (weight_pos k)).mpr hless.le
  · exact ofNat_isFinite hword
  · exfalso
    have hpos : 0 < word := by
      rcases Nat.eq_zero_or_pos word with rfl | hpos
      · exact absurd rfl hzero
      · exact hpos
    have hlarge : weight 309 ≤ weight k := weight_mono (by omega)
    have hproduct := Nat.le_mul_of_pos_left (weight k) hpos
    omega

theorem scaleUp_isFinite_of_lt_half (hword : word < UInt64.size)
    (hless : word * weight k < halfOverflow) : (scaleUp (ofNat word) k).isFinite = true := by
  refine scaleUp_isFinite hword hless (by decide +kernel) fun hk ↦ ?_
  rcases Nat.lt_or_ge 288 k with hlarge | hsmall
  · have htable : ∀ k < 309, 288 < k →
        ((ofNat (min (UInt64.size - 1) (halfOverflow / weight k))).mul (tenPow k)).isFinite =
          true := by
      decide +kernel
    exact htable k (by omega) hlarge
  · have hlast : ((ofNat (UInt64.size - 1)).mul (tenPow 288)).isFinite = true := by decide +kernel
    exact isFinite_of_le (mul_le_mul (ofNat_mono (Nat.min_le_left _ _)) (tenPow_mono hsmall)) hlast

theorem scaleUp_isFinite_of_lt (hword : word < UInt64.size) (hk : 292 < k)
    (hless : word * weight k < overflow) : (scaleUp (ofNat word) k).isFinite = true := by
  refine scaleUp_isFinite hword hless (by decide +kernel) fun hmost ↦ ?_
  have htable : ∀ k < 309, 292 < k →
      ((ofNat (min (UInt64.size - 1) (overflow / weight k))).mul (tenPow k)).isFinite = true := by
    decide +kernel
  exact htable k (by omega) hk

theorem lt_of_scaled {places digits bound : Nat} {e : Int} (hle : word * weight places ≤ digits)
    (hdigits : digits * weight e.toNat < bound * weight (-e).toNat) (hnonneg : 0 ≤ e + places) :
    word * weight (e + places).toNat < bound := by
  have hweights : weight (e + places).toNat * weight (-e).toNat =
      weight places * weight e.toNat := by
    rw [← weight_add, ← weight_add]
    congr 1
    omega
  apply Nat.lt_of_mul_lt_mul_right (a := weight (-e).toNat)
  calc
    word * weight (e + places).toNat * weight (-e).toNat
        = word * weight places * weight e.toNat := by rw [Nat.mul_assoc, hweights, Nat.mul_assoc]
    _ ≤ digits * weight e.toNat := Nat.mul_le_mul_right _ hle
    _ < bound * weight (-e).toNat := hdigits

/-- However many digits of the printed number fit into a word, the double of the word and the
remaining power of ten is finite. -/
theorem scaleUp_shortest_isFinite {x : Binary64} (hx : x.isFinite = true) {places : Nat}
    (hword : word < UInt64.size) (hle : word * weight places ≤ x.shortest.digits)
    (hnonneg : 0 ≤ x.shortest.exponent + places) :
    (scaleUp (ofNat word) (x.shortest.exponent + places).toNat).isFinite = true := by
  by_cases hlast : x.InLastBinade
  · obtain ⟨hleast, hdigits⟩ := shortest_of_last hlast
    by_cases hexponent : x.shortest.exponent + places = 292
    · have hnone : places = 0 := by omega
      have hexact : (292 : Int).toNat = 292 := rfl
      have hone : weight 0 = 1 := rfl
      rw [hnone, hone, Nat.mul_one] at hle
      have hsmall := hle.trans (hdigits (by omega))
      have hlargest : ((ofNat 17976931348623157).mul (tenPow 292)).isFinite = true := by
        decide +kernel
      rw [hexponent, hexact, scaleUp, if_pos (by decide)]
      exact isFinite_of_le (mul_mono (ofNat_mono hsmall) _) hlargest
    · exact scaleUp_isFinite_of_lt hword (by omega) (lt_of_scaled hle (shortest_lt hx) hnonneg)
  · exact scaleUp_isFinite_of_lt_half hword
      (lt_of_scaled hle (shortest_lt_of_not_last hx hlast) hnonneg)

/-- Dividing by a power of ten keeps a double within the words. -/
theorem div_tenPow_le {x : Binary64} (hx : x.magnitude ≤ (ofNat UInt64.size).magnitude) (k : Nat) :
    (x.div (tenPow k)).magnitude ≤ (ofNat UInt64.size).magnitude := by
  have hword := fraction_le hx
  have hsize : (ofNat UInt64.size).numerator = UInt64.size ∧
      (ofNat UInt64.size).denominator = 1 := by decide +kernel
  rw [hsize.1, hsize.2, Nat.mul_one] at hword
  have hpower := fraction_le (ofNat_mono (weight_pos k))
  have hone : (ofNat (0 + 1)).numerator = hiddenBit ∧ (ofNat (0 + 1)).denominator = hiddenBit := by
    decide +kernel
  rw [hone.1, hone.2, Nat.mul_comm] at hpower
  exact div_le_of_one_le hword (Nat.le_of_mul_le_mul_right hpower (by decide))

theorem scaleDown_isFinite (hword : word < UInt64.size) (k : Nat) :
    (scaleDown (ofNat word) k).isFinite = true := by
  have hsize : (ofNat UInt64.size).isFinite = true := by decide +kernel
  have hfirst := ofNat_mono hword.le
  unfold scaleDown
  split_ifs
  · exact isFinite_of_le (div_tenPow_le hfirst k) hsize
  · exact isFinite_of_le (div_tenPow_le (div_tenPow_le hfirst 308) (k - 308)) hsize
  · exact ofNat_isFinite (by decide)

theorem finite?_isSome {x : Binary64} (hx : x.isFinite = true) : (finite? x).isSome = true := by
  rw [finite?, if_pos hx]
  rfl

theorem double?_isSome (negative : Bool) {e : Int} (hword : word < UInt64.size)
    (hup : 0 ≤ e → (scaleUp (ofNat word) e.toNat).isFinite = true) :
    (double? negative word e).isSome = true := by
  have hscaled : (if 0 ≤ e then scaleUp (ofNat word) e.toNat
      else scaleDown (ofNat word) (-e).toNat).isFinite = true := by
    split_ifs with hsign
    · exact hup hsign
    · exact scaleDown_isFinite hword _
  refine finite?_isSome ?_
  cases negative with
  | true => exact isFinite_of_le (magnitude_neg _).le hscaled
  | false => exact hscaled

theorem double?_isSome_of_nonpos (negative : Bool) {e : Int} (hword : word < UInt64.size)
    (he : e ≤ 0) : (double? negative word e).isSome = true := by
  refine double?_isSome negative hword fun hnonneg ↦ ?_
  have hzero : e.toNat = 0 := by omega
  have hone : weight 0 = 1 := rfl
  rw [hzero]
  apply scaleUp_isFinite_of_lt_half hword
  rw [hone, Nat.mul_one]
  exact hword.trans (by decide +kernel)

end TicketPool.Json.Numeral

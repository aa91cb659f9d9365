import Mathlib.Algebra.Order.Field.Power
import Mathlib.Algebra.Order.Field.Rat
import Mathlib.Tactic.FieldSimp
import Mathlib.Tactic.Linarith
import Mathlib.Tactic.Positivity
import Mathlib.Tactic.Ring
import TicketPool.Decimal.Binary64

/-!
# The order of rounded numbers

Rounding keeps the order of fractions, and the order of doubles is the order of their magnitudes.
So a product grows with its factors, also after it has been rounded.
-/

namespace TicketPool.Binary64

theorem twoTo_pos (k : Nat) : 0 < twoTo k :=
  Nat.pow_pos (by decide)

/-- Dividing a fraction by a power of two, by powers of natural numbers. -/
theorem cast_scaled (num den : Nat) (q : Int) :
    ((num * twoTo (-q).toNat : Nat) : ℚ) / (den * twoTo q.toNat : Nat) =
      (num : ℚ) / den / (2 : ℚ) ^ q := by
  have hpow : ∀ k, ((twoTo k : Nat) : ℚ) = (2 : ℚ) ^ k := by
    intro k
    exact Nat.cast_pow 2 k
  have hzero : ((2 : ℚ) ^ q.toNat) / 2 ^ (-q).toNat = 2 ^ q := by
    rw [← zpow_natCast, ← zpow_natCast, ← zpow_sub₀ (by norm_num)]
    congr 1
    omega
  rw [Nat.cast_mul, Nat.cast_mul, hpow, hpow, ← hzero]
  field_simp

theorem scaled_lt_iff {num den : Nat} (hden : 0 < den) (bound : Nat) (q : Int) :
    num * twoTo (-q).toNat < bound * (den * twoTo q.toNat) ↔
      (num : ℚ) / den < bound * (2 : ℚ) ^ q := by
  have hpos : (0 : ℚ) < (den * twoTo q.toNat : Nat) := by
    exact_mod_cast Nat.mul_pos hden (twoTo_pos _)
  rw [← div_lt_iff₀ (by positivity : (0 : ℚ) < (2 : ℚ) ^ q), ← cast_scaled, div_lt_iff₀ hpos]
  exact_mod_cast Iff.rfl

/-- The logarithms of the numerator and the denominator tell that of the fraction but for one. -/
theorem log2_bounds {num den : Nat} (hnum : 0 < num) (hden : 0 < den) :
    (2 : ℚ) ^ ((num.log2 : Int) - den.log2 - 1) ≤ (num : ℚ) / den ∧
      (num : ℚ) / den < (2 : ℚ) ^ ((num.log2 : Int) - den.log2 + 1) := by
  have hpos : (0 : ℚ) < den := by exact_mod_cast hden
  have hnumLow : (2 : ℚ) ^ num.log2 ≤ num := by exact_mod_cast Nat.log2_self_le hnum.ne'
  have hnumHigh : (num : ℚ) < 2 ^ (num.log2 + 1) := by exact_mod_cast Nat.lt_log2_self
  have hdenLow : (2 : ℚ) ^ den.log2 ≤ den := by exact_mod_cast Nat.log2_self_le hden.ne'
  have hdenHigh : (den : ℚ) < 2 ^ (den.log2 + 1) := by exact_mod_cast Nat.lt_log2_self
  constructor
  · rw [le_div_iff₀ hpos]
    calc
      (2 : ℚ) ^ ((num.log2 : Int) - den.log2 - 1) * den
          ≤ (2 : ℚ) ^ ((num.log2 : Int) - den.log2 - 1) * 2 ^ (den.log2 + 1) := by gcongr
      _ = 2 ^ num.log2 := by
        rw [← zpow_natCast, ← zpow_natCast, ← zpow_add₀ (by norm_num)]
        congr 1
        push_cast
        ring
      _ ≤ num := hnumLow
  · rw [div_lt_iff₀ hpos]
    calc
      (num : ℚ) < 2 ^ (num.log2 + 1) := hnumHigh
      _ = (2 : ℚ) ^ ((num.log2 : Int) - den.log2 + 1) * 2 ^ den.log2 := by
        rw [← zpow_natCast, ← zpow_natCast, ← zpow_add₀ (by norm_num)]
        congr 1
        push_cast
        ring
      _ ≤ (2 : ℚ) ^ ((num.log2 : Int) - den.log2 + 1) * den := by gcongr

/-- The scale of a fraction: the significand has 53 digits, or fewer if the scale is least. -/
theorem fitScale_spec {num den : Nat} (hnum : 0 < num) (hden : 0 < den) :
    -1074 ≤ fitScale num den ∧
      (num : ℚ) / den < (2 : ℚ) ^ (fitScale num den + 53) ∧
      (fitScale num den = -1074 ∨ (2 : ℚ) ^ (fitScale num den + 52) ≤ (num : ℚ) / den) := by
  obtain ⟨hlow, hhigh⟩ := log2_bounds hnum hden
  set guess : Int := (num.log2 : Int) - den.log2 - 53 with hguess
  have htest : num * twoTo (-(guess + 53)).toNat < den * twoTo (guess + 53).toNat ↔
      (num : ℚ) / den < (2 : ℚ) ^ (guess + 53) := by
    rw [← Nat.one_mul (den * _), scaled_lt_iff hden, Nat.cast_one, one_mul]
  have hscale : ∃ scale : Int, fitScale num den = max scale (-1074) ∧
      (2 : ℚ) ^ (scale + 52) ≤ (num : ℚ) / den ∧ (num : ℚ) / den < (2 : ℚ) ^ (scale + 53) := by
    by_cases hless : (num : ℚ) / den < (2 : ℚ) ^ (guess + 53)
    · refine ⟨guess, ?_, ?_, hless⟩
      · rw [fitScale, if_pos (htest.mpr hless)]
      · rwa [show guess + 52 = (num.log2 : Int) - den.log2 - 1 by omega]
    · refine ⟨guess + 1, ?_, ?_, ?_⟩
      · rw [fitScale, if_neg (htest.not.mpr hless)]
      · rw [show guess + 1 + 52 = guess + 53 by omega]
        exact not_lt.mp hless
      · rwa [show guess + 1 + 53 = (num.log2 : Int) - den.log2 + 1 by omega]
  obtain ⟨scale, hfit, hbelow, habove⟩ := hscale
  rw [hfit]
  rcases le_total (-1074) scale with hlarge | hsmall
  · rw [max_eq_left hlarge]
    exact ⟨hlarge, habove, .inr hbelow⟩
  · rw [max_eq_right hsmall]
    refine ⟨le_refl _, habove.trans_le ?_, .inl rfl⟩
    exact zpow_le_zpow_right₀ (by norm_num) (by omega)

theorem roundDiv_mul_right (num den : Nat) {k : Nat} (hk : 0 < k) :
    roundDiv (num * k) (den * k) = roundDiv num den := by
  have htwice : 2 * (num * k % (den * k)) = 2 * (num % den) * k := by
    rw [Nat.mul_mod_mul_right, Nat.mul_assoc]
  simp only [roundDiv, Nat.mul_div_mul_right num den hk, htwice, Nat.mul_lt_mul_right hk,
    Nat.mul_right_cancel_iff hk]

theorem roundDiv_le_roundDiv {num num' den : Nat} (h : num ≤ num') :
    roundDiv num den ≤ roundDiv num' den := by
  have hquotient : num / den ≤ num' / den := Nat.div_le_div_right h
  unfold roundDiv
  rcases Nat.lt_or_eq_of_le hquotient with hless | hsame
  · dsimp only
    split_ifs <;> omega
  · have hrest : num % den ≤ num' % den := by
      have hnum := Nat.div_add_mod num den
      have hnum' := Nat.div_add_mod num' den
      rw [hsame] at hnum
      omega
    dsimp only
    rw [hsame]
    split_ifs <;> omega

theorem roundDiv_mono {a b c d : Nat} (hb : 0 < b) (hd : 0 < d) (h : a * d ≤ c * b) :
    roundDiv a b ≤ roundDiv c d := by
  rw [← roundDiv_mul_right a b hd, ← roundDiv_mul_right c d hb, Nat.mul_comm d b]
  exact roundDiv_le_roundDiv h

theorem roundDiv_mul_self (n : Nat) {den : Nat} (hden : 0 < den) : roundDiv (n * den) den = n := by
  simp [roundDiv, Nat.mul_div_cancel n hden, hden]

theorem roundDiv_near (num : Nat) {den : Nat} (hden : 0 < den) :
    2 * (roundDiv num den * den) ≤ 2 * num + den ∧
      2 * num ≤ 2 * (roundDiv num den * den) + den := by
  have hnum := Nat.div_add_mod num den
  have hrest := Nat.mod_lt num hden
  rw [Nat.mul_comm] at hnum
  unfold roundDiv
  dsimp only
  split_ifs
  · omega
  · have hnext := Nat.add_one_mul (num / den) den
    omega

/-- The significand of a rounded fraction. -/
def rounded (num den : Nat) : Nat :=
  roundDiv (num * twoTo (-fitScale num den).toNat) (den * twoTo (fitScale num den).toNat)

theorem cast_hiddenBit : ((hiddenBit : Nat) : ℚ) = (2 : ℚ) ^ (52 : Int) := by
  norm_num [hiddenBit]

theorem rounded_le {num den : Nat} (hnum : 0 < num) (hden : 0 < den) :
    rounded num den ≤ 2 * hiddenBit := by
  obtain ⟨-, hhigh, -⟩ := fitScale_spec hnum hden
  have hbound : ((2 * hiddenBit : Nat) : ℚ) * (2 : ℚ) ^ fitScale num den =
      (2 : ℚ) ^ (fitScale num den + 53) := by
    rw [Nat.cast_mul, cast_hiddenBit, zpow_add₀ (by norm_num)]
    norm_num
    ring
  rw [← hbound, ← scaled_lt_iff hden] at hhigh
  rw [rounded, ← roundDiv_mul_self (2 * hiddenBit) (Nat.mul_pos hden (twoTo_pos _))]
  exact roundDiv_le_roundDiv hhigh.le

theorem hiddenBit_le_rounded {num den : Nat} (hnum : 0 < num) (hden : 0 < den)
    (hscale : fitScale num den ≠ -1074) : hiddenBit ≤ rounded num den := by
  obtain ⟨-, -, hlow⟩ := fitScale_spec hnum hden
  have hlow := hlow.resolve_left hscale
  have hbound : (hiddenBit : ℚ) * (2 : ℚ) ^ fitScale num den =
      (2 : ℚ) ^ (fitScale num den + 52) := by
    rw [cast_hiddenBit, zpow_add₀ (by norm_num), mul_comm]
  rw [← hbound, ← not_lt, ← scaled_lt_iff hden, not_lt] at hlow
  rw [rounded, ← roundDiv_mul_self hiddenBit (Nat.mul_pos hden (twoTo_pos _))]
  exact roundDiv_le_roundDiv hlow

theorem magnitude_ofMagnitude {m : Nat} (negative : Bool) (hm : m < signBit) :
    (ofMagnitude negative m).magnitude = m := by
  have hbits : ∀ n, n < 2 * signBit → (UInt64.ofNat n).toNat = n := by
    intro n hn
    exact UInt64.toNat_ofNat_of_lt' (by simpa [signBit, UInt64.size] using hn)
  cases negative with
  | true =>
    have hn : signBit + m < 2 * signBit := by omega
    simp only [magnitude, ofMagnitude, if_true, hbits _ hn]
    rw [Nat.add_mod_left, Nat.mod_eq_of_lt hm]
  | false =>
    have hn : m < 2 * signBit := by omega
    simp only [magnitude, ofMagnitude, Bool.false_eq_true, if_false, hbits _ hn]
    exact Nat.mod_eq_of_lt hm

theorem magnitude_ofRatio {num den : Nat} (hnum : 0 < num) :
    (ofRatio num den).magnitude =
      min ((fitScale num den + 1074).toNat * hiddenBit + rounded num den) infinityBits := by
  rw [ofRatio, if_neg hnum.ne']
  exact magnitude_ofMagnitude false ((Nat.min_le_right _ _).trans_lt (by decide))

theorem magnitude_ofRatio_zero (den : Nat) : (ofRatio 0 den).magnitude = 0 :=
  rfl

/-- Rounding to a double keeps the order of fractions. -/
theorem ofRatio_mono {a b c d : Nat} (hb : 0 < b) (hd : 0 < d) (h : a * d ≤ c * b) :
    (ofRatio a b).magnitude ≤ (ofRatio c d).magnitude := by
  rcases Nat.eq_zero_or_pos a with rfl | ha
  · rw [magnitude_ofRatio_zero]
    exact Nat.zero_le _
  have hc : 0 < c := by
    have hproduct := (Nat.mul_pos ha hd).trans_le h
    exact Nat.pos_of_mul_pos_right hproduct
  have hfractions : (a : ℚ) / b ≤ (c : ℚ) / d := by
    rw [div_le_div_iff₀ (by exact_mod_cast hb) (by exact_mod_cast hd)]
    exact_mod_cast h
  obtain ⟨hleast, hhigh, hlow⟩ := fitScale_spec ha hb
  obtain ⟨hleast', hhigh', hlow'⟩ := fitScale_spec hc hd
  rw [magnitude_ofRatio ha, magnitude_ofRatio hc]
  apply min_le_min_right
  rcases lt_trichotomy (fitScale a b) (fitScale c d) with hless | hsame | hmore
  · have hsmall := rounded_le ha hb
    have hlarge := hiddenBit_le_rounded hc hd (by omega)
    have hstep : (fitScale a b + 1074).toNat + 1 ≤ (fitScale c d + 1074).toNat := by omega
    have hbits := Nat.mul_le_mul_right hiddenBit hstep
    rw [Nat.add_one_mul] at hbits
    omega
  · rw [hsame]
    apply Nat.add_le_add_left
    rw [rounded, rounded, hsame]
    apply roundDiv_mono (Nat.mul_pos hb (twoTo_pos _)) (Nat.mul_pos hd (twoTo_pos _))
    calc
      a * twoTo (-fitScale c d).toNat * (d * twoTo (fitScale c d).toNat)
          = a * d * (twoTo (-fitScale c d).toNat * twoTo (fitScale c d).toNat) := by ring
      _ ≤ c * b * (twoTo (-fitScale c d).toNat * twoTo (fitScale c d).toNat) :=
        Nat.mul_le_mul_right _ h
      _ = c * twoTo (-fitScale c d).toNat * (b * twoTo (fitScale c d).toNat) := by ring
  · have hbelow := hlow.resolve_left (by omega)
    have hpowers : (2 : ℚ) ^ (fitScale c d + 53) ≤ 2 ^ (fitScale a b + 52) :=
      zpow_le_zpow_right₀ (by norm_num) (by omega)
    exact absurd (hbelow.trans hfractions) (not_le.mpr (hhigh'.trans_le hpowers))

theorem ofNat_mono {m n : Nat} (h : m ≤ n) : (ofNat m).magnitude ≤ (ofNat n).magnitude :=
  ofRatio_mono (by decide) (by decide) (Nat.mul_le_mul_right 1 h)

variable {x y t : Binary64}

theorem denominator_pos (x : Binary64) : 0 < x.denominator :=
  twoTo_pos _

/-- A finite double as a fraction. -/
theorem cast_fraction (x : Binary64) :
    (x.numerator : ℚ) / x.denominator = x.significand * (2 : ℚ) ^ x.scale := by
  have hscaled := cast_scaled x.significand 1 (-x.scale)
  rw [neg_neg, Nat.one_mul, Nat.cast_one, div_one, zpow_neg, div_inv_eq_mul] at hscaled
  exact hscaled

theorem significand_le (x : Binary64) : x.significand ≤ 2 * hiddenBit := by
  have hrest := Nat.mod_lt x.magnitude (show 0 < hiddenBit by decide)
  unfold significand
  split_ifs <;> omega

theorem significand_mul_le_of_less (hless : x.exponentBits < y.exponentBits) :
    (x.significand : ℚ) * 2 ^ x.scale ≤ hiddenBit * 2 ^ y.scale := by
  rcases Nat.eq_zero_or_pos x.exponentBits with hzero | hpos
  · have hscale : x.scale ≤ y.scale := by
      unfold scale
      omega
    have hrest : x.significand ≤ hiddenBit := by
      rw [significand, if_pos hzero]
      exact (Nat.mod_lt _ (by decide)).le
    have hpower : (2 : ℚ) ^ x.scale ≤ 2 ^ y.scale := zpow_le_zpow_right₀ (by norm_num) hscale
    gcongr
  · have hscale : x.scale + 1 ≤ y.scale := by
      unfold scale
      omega
    have hpower : (2 : ℚ) ^ (x.scale + 1) ≤ 2 ^ y.scale :=
      zpow_le_zpow_right₀ (by norm_num) hscale
    have hfull : (x.significand : ℚ) ≤ 2 * hiddenBit := by exact_mod_cast significand_le x
    rw [zpow_add_one₀ (by norm_num)] at hpower
    calc
      (x.significand : ℚ) * 2 ^ x.scale ≤ 2 * hiddenBit * 2 ^ x.scale := by gcongr
      _ = hiddenBit * (2 ^ x.scale * 2) := by ring
      _ ≤ hiddenBit * 2 ^ y.scale := by gcongr

theorem significand_mul_le (h : x.magnitude ≤ y.magnitude) :
    (x.significand : ℚ) * 2 ^ x.scale ≤ y.significand * 2 ^ y.scale := by
  have hbits : x.exponentBits ≤ y.exponentBits := Nat.div_le_div_right h
  rcases Nat.lt_or_eq_of_le hbits with hless | hsame
  · have hhigh : hiddenBit ≤ y.significand := by
      rw [significand, if_neg (by omega)]
      exact Nat.le_add_left _ _
    calc
      (x.significand : ℚ) * 2 ^ x.scale ≤ hiddenBit * 2 ^ y.scale :=
        significand_mul_le_of_less hless
      _ ≤ y.significand * 2 ^ y.scale := by gcongr
  · have hscale : x.scale = y.scale := by rw [scale, scale, hsame]
    have hrest : x.magnitude % hiddenBit ≤ y.magnitude % hiddenBit := by
      have hx := Nat.div_add_mod x.magnitude hiddenBit
      have hy := Nat.div_add_mod y.magnitude hiddenBit
      unfold exponentBits at hsame
      rw [hsame] at hx
      omega
    have hsignificand : x.significand ≤ y.significand := by
      unfold significand
      rw [hsame]
      split_ifs <;> omega
    rw [hscale]
    gcongr

/-- The order of doubles is the order of their magnitudes. -/
theorem fraction_le (h : x.magnitude ≤ y.magnitude) :
    x.numerator * y.denominator ≤ y.numerator * x.denominator := by
  have hvalue := significand_mul_le h
  rw [← cast_fraction, ← cast_fraction, div_le_div_iff₀ (by exact_mod_cast denominator_pos x)
    (by exact_mod_cast denominator_pos y)] at hvalue
  exact_mod_cast hvalue

theorem mul_mono (h : x.magnitude ≤ y.magnitude) (t : Binary64) :
    (x.mul t).magnitude ≤ (y.mul t).magnitude := by
  have hfraction := fraction_le h
  apply ofRatio_mono (Nat.mul_pos (denominator_pos x) (denominator_pos t))
    (Nat.mul_pos (denominator_pos y) (denominator_pos t))
  calc
    x.numerator * t.numerator * (y.denominator * t.denominator)
        = x.numerator * y.denominator * (t.numerator * t.denominator) := by ring
    _ ≤ y.numerator * x.denominator * (t.numerator * t.denominator) :=
      Nat.mul_le_mul_right _ hfraction
    _ = y.numerator * t.numerator * (x.denominator * t.denominator) := by ring

theorem mul_comm_of_mul (x y : Binary64) : x.mul y = y.mul x := by
  rw [mul, mul, Nat.mul_comm x.numerator, Nat.mul_comm x.denominator]

/-- Dividing by one or more gives no more. -/
theorem div_le_of_one_le {bound : Nat} (hx : x.numerator ≤ bound * x.denominator)
    (ht : t.denominator ≤ t.numerator) : (x.div t).magnitude ≤ (ofNat bound).magnitude := by
  have hpos : 0 < t.numerator := (denominator_pos t).trans_le ht
  apply ofRatio_mono (Nat.mul_pos (denominator_pos x) hpos) (by decide)
  calc
    x.numerator * t.denominator * 1 ≤ bound * x.denominator * t.numerator := by
      rw [Nat.mul_one]
      exact Nat.mul_le_mul hx ht
    _ = bound * (x.denominator * t.numerator) := Nat.mul_assoc _ _ _

theorem isFinite_iff : x.isFinite = true ↔ x.magnitude < infinityBits := by
  rw [isFinite, decide_eq_true_eq, exponentBits, infinityBits,
    Nat.div_lt_iff_lt_mul (show 0 < hiddenBit by decide)]

theorem magnitude_lt (x : Binary64) : x.magnitude < signBit :=
  Nat.mod_lt _ (by decide)

@[simp] theorem magnitude_neg (x : Binary64) : x.neg.magnitude = x.magnitude :=
  magnitude_ofMagnitude _ x.magnitude_lt

end TicketPool.Binary64

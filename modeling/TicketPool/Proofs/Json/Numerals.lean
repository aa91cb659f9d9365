import TicketPool.Json.Tree
import TicketPool.Proofs.Json.Scaling

/-!
# Reading numbers back

The text of a number is split into the parts that it was put together from, and these have a value:
an integer its own, and a finite double some finite double.  The two roundings of the reader need
not end with the double that was written, but they never overflow.
-/

namespace TicketPool.Json.Numeral

open Digit

def fractionText (fraction : List Char) : List Char :=
  if fraction = [] then [] else '.' :: fraction

def exponentText : Option (Bool × List Char) → List Char
  | none => []
  | some (down, run) => 'e' :: (if down then '-' else '+') :: run

/-- The text that a numeral was split from. -/
def written (n : Numeral) : List Char :=
  (if n.negative then ['-'] else []) ++
    (n.whole ++ (fractionText n.fraction ++ exponentText n.exponent))

/-- Whether the parts of a numeral may stand where they are. -/
structure WellFormed (n : Numeral) : Prop where
  whole : n.whole = ['0'] ∨ n.whole ≠ [] ∧ n.whole.head? ≠ some '0'
  wholeDigits : ∀ c ∈ n.whole, c.isDigit = true
  fractionDigits : ∀ c ∈ n.fraction, c.isDigit = true
  exponentDigits : ∀ down run, n.exponent = some (down, run) →
    run ≠ [] ∧ ∀ c ∈ run, c.isDigit = true

theorem WellFormed.whole_ne_nil {n : Numeral} (h : n.WellFormed) : n.whole ≠ [] := by
  rcases h.whole with hzero | ⟨hne, -⟩
  · simp [hzero]
  · exact hne

theorem exponent?_written {down : Bool} {run : List Char} (hne : run ≠ [])
    (hrun : ∀ c ∈ run, c.isDigit = true) :
    exponent? ((if down then '-' else '+') :: run) = some (down, run) := by
  have hdigits : run.all Char.isDigit = true := List.all_eq_true.mpr hrun
  cases down <;> simp [exponent?, exponent?.digits?, hne, hdigits]

theorem stops_exponentText (e : Option (Bool × List Char)) : Stops (exponentText e) := by
  cases e <;> simp [Stops, exponentText]

theorem stops_fractionText (fraction : List Char) (e : Option (Bool × List Char)) :
    Stops (fractionText fraction ++ exponentText e) := by
  unfold fractionText
  split_ifs with hnone
  · exact stops_exponentText e
  · simp [Stops]

theorem tail?_written {n : Numeral} (h : n.WellFormed) :
    tail? n.negative n.whole (fractionText n.fraction ++ exponentText n.exponent) = some n := by
  obtain ⟨negative, whole, fraction, e⟩ := n
  have hfraction : ∀ c ∈ fraction, c.isDigit = true := h.fractionDigits
  have htake : (fraction ++ exponentText e).takeWhile Char.isDigit = fraction :=
    takeWhile_isDigit hfraction (stops_exponentText e)
  have hdrop : (fraction ++ exponentText e).dropWhile Char.isDigit = exponentText e :=
    dropWhile_isDigit hfraction (stops_exponentText e)
  by_cases hnone : fraction = []
  · cases e with
    | none => simp [hnone, fractionText, exponentText, tail?]
    | some e =>
      obtain ⟨hne, hrun⟩ := h.exponentDigits e.1 e.2 rfl
      simp [hnone, fractionText, exponentText, tail?, exponent?_written hne hrun]
  · rw [fractionText, if_neg hnone]
    simp only [List.cons_append, tail?, htake, hdrop, if_neg hnone]
    cases e with
    | none => simp [exponentText]
    | some e =>
      obtain ⟨hne, hrun⟩ := h.exponentDigits e.1 e.2 rfl
      simp [exponentText, exponent?_written hne hrun]

theorem ofChars?_written {n : Numeral} (h : n.WellFormed) : ofChars? n.written = some n := by
  have htake : (n.whole ++ (fractionText n.fraction ++ exponentText n.exponent)).takeWhile
      Char.isDigit = n.whole := takeWhile_isDigit h.wholeDigits (stops_fractionText _ _)
  have hdrop : (n.whole ++ (fractionText n.fraction ++ exponentText n.exponent)).dropWhile
      Char.isDigit = fractionText n.fraction ++ exponentText n.exponent :=
    dropWhile_isDigit h.wholeDigits (stops_fractionText _ _)
  have hunsigned : unsigned? n.negative
      (n.whole ++ (fractionText n.fraction ++ exponentText n.exponent)) = some n := by
    rw [unsigned?, htake, hdrop, if_pos h.whole, tail?_written h]
  unfold written
  cases hsign : n.negative with
  | true =>
    rw [hsign] at hunsigned
    exact hunsigned
  | false =>
    rw [hsign] at hunsigned
    obtain ⟨c, rest, hwhole⟩ := List.exists_cons_of_ne_nil h.whole_ne_nil
    have hc := h.wholeDigits c (by simp [hwhole])
    rw [hwhole] at hunsigned ⊢
    simp only [Bool.false_eq_true, if_false, List.nil_append, List.cons_append]
    rw [ofChars?.eq_2]
    · exact hunsigned
    · rintro run hrun
      rw [(List.cons.inj hrun).1] at hc
      exact absurd hc (by decide)

theorem gather_of_lt {start : Nat} {run : List Char}
    (h : Nat.ofDigitChars 10 run start < UInt64.size) :
    gather start run = (Nat.ofDigitChars 10 run start, []) := by
  induction run generalizing start with
  | nil => rfl
  | cons c rest ih =>
    rw [Nat.ofDigitChars_cons] at h ⊢
    have hnext : 10 * start + (c.toNat - '0'.toNat) < UInt64.size := by
      have hgrows := @Nat.ofDigitChars_eq_ofDigitChars_zero rest
        (10 * start + (c.toNat - '0'.toNat))
      have hpower : 1 ≤ 10 ^ rest.length := Nat.one_le_pow _ _ (by decide)
      have hproduct := Nat.le_mul_of_pos_left (10 * start + (c.toNat - '0'.toNat)) hpower
      omega
    rw [gather, if_pos hnext, ih h]

/-- Digits that do not fit any more are left out, which makes the number no larger. -/
theorem gather_le (start : Nat) (run : List Char) :
    (gather start run).1 * weight (gather start run).2.length ≤ Nat.ofDigitChars 10 run start ∧
      (gather start run).2.length ≤ run.length := by
  induction run generalizing start with
  | nil => exact ⟨(Nat.mul_one start).le, Nat.le_refl _⟩
  | cons c rest ih =>
    rw [gather]
    split_ifs with hfits
    · obtain ⟨hle, hlength⟩ := ih (10 * start + (c.toNat - '0'.toNat))
      rw [Nat.ofDigitChars_cons]
      exact ⟨hle, hlength.trans (Nat.le_succ _)⟩
    · refine ⟨?_, Nat.le_refl _⟩
      rw [Nat.ofDigitChars_eq_ofDigitChars_zero, Nat.mul_comm]
      exact Nat.le_add_right _ _

section Values

variable {n : Numeral} {run : List Char} {x : Binary64}

theorem gather_zero (h : number run < UInt64.size) : gather 0 run = (number run, []) :=
  gather_of_lt h

theorem number?_isSome_of_plain (hwhole : number n.whole < UInt64.size)
    (hfraction : n.fraction ≠ []) (hexponent : n.exponent = none) : n.number?.isSome = true := by
  have hword : (gather (number n.whole) n.fraction).1 < UInt64.size := gather_lt hwhole
  simp only [number?, gather_zero hwhole, hexponent, hfraction, false_and, if_false,
    List.length_nil]
  exact double?_isSome_of_nonpos _ hword (by omega)

theorem number?_isSome_of_down (hwhole : number n.whole < UInt64.size)
    (hexponent : n.exponent = some (true, run)) : n.number?.isSome = true := by
  have hword : (gather (number n.whole) n.fraction).1 < UInt64.size := gather_lt hwhole
  simp only [number?, gather_zero hwhole, hexponent, or_true, if_true, List.length_nil]
  split_ifs
  · exact double?_isSome_of_nonpos _ hword (by omega)
  · exact double?_isSome_of_nonpos _ (by decide) (le_refl 0)

theorem number_take_one_lt (hrun : ∀ c ∈ run, c.isDigit = true) :
    number (run.take 1) < UInt64.size := by
  have htaken : ∀ c ∈ run.take 1, c.isDigit = true := fun c hc ↦ hrun c (List.mem_of_mem_take hc)
  have hsize : weight 1 ≤ UInt64.size := by decide
  exact (number_lt htaken).trans_le ((weight_mono (List.length_take_le 1 run)).trans hsize)

/-- The exponent of a finite double is small. -/
theorem exponent_lt (hx : x.isFinite = true) (hdigits : 0 < x.shortest.digits) :
    x.shortest.scientific.2 < 309 := by
  by_contra hlarge
  have hleast := weight_length_le hdigits
  have hexponent : x.shortest.scientific.2 =
      x.shortest.exponent + ((numeral x.shortest.digits).length - 1 : Nat) := by
    have hpos := List.length_pos_iff.mpr (numeral_ne_nil x.shortest.digits)
    change x.shortest.exponent + ((numeral x.shortest.digits).length : Int) - 1 = _
    omega
  rw [← Nat.one_mul (weight _)] at hleast
  have hless := lt_of_scaled hleast (Binary64.shortest_lt hx) (by omega)
  rw [← hexponent, Nat.one_mul] at hless
  have hmore := (weight_mono (show 309 ≤ x.shortest.scientific.2.toNat by omega)).trans hless.le
  exact absurd hmore (Nat.not_le.mpr (by decide +kernel))

/-- The digits of a printed double, read back with its exponent. -/
theorem number?_isSome_of_up (hx : x.isFinite = true) (hdigits : 0 < x.shortest.digits)
    (negative : Bool) (hup : 0 ≤ x.shortest.scientific.2) :
    (number? ⟨negative, x.shortest.scientific.1.take 1, x.shortest.scientific.1.drop 1,
      some (false, numeral x.shortest.scientific.2.natAbs)⟩).isSome = true := by
  obtain ⟨zeros, hsplit, hexponent⟩ := x.shortest.scientific_spec
  obtain ⟨hne, -⟩ := Binary64.Decimal.scientific_head hdigits
  have hsmall := exponent_lt hx hdigits
  have hvalue : number x.shortest.scientific.1 * weight zeros = x.shortest.digits := by
    have hnumber := congrArg number hsplit
    rw [number_numeral, number_append, List.length_replicate, number_zeros] at hnumber
    exact hnumber.symm
  obtain ⟨c, rest, hrun⟩ := List.exists_cons_of_ne_nil hne
  have hfirst := number_take_one_lt fun _ ↦
    Binary64.Decimal.isDigit_of_mem_scientific (d := x.shortest)
  rw [hrun] at hvalue hexponent hfirst
  simp only [hrun, List.take_succ_cons, List.take_zero, List.drop_succ_cons, List.drop_zero]
    at hfirst ⊢
  have hword : (gather (number [c]) rest).1 < UInt64.size := gather_lt hfirst
  obtain ⟨hle, hlength⟩ := gather_le (number [c]) rest
  have hplaces : (gather (number [c]) rest).1 *
      weight ((gather (number [c]) rest).2.length + zeros) ≤ x.shortest.digits := by
    calc
      _ = (gather (number [c]) rest).1 * weight (gather (number [c]) rest).2.length *
          weight zeros := by
        rw [Nat.mul_assoc, weight_add]
      _ ≤ number (c :: rest) * weight zeros := Nat.mul_le_mul_right _ hle
      _ = x.shortest.digits := hvalue
  have hbound : x.shortest.scientific.2.natAbs < UInt32.size / 2 :=
    (show _ < 309 by omega).trans (by decide)
  simp only [number?, gather_zero hfirst, number_numeral, if_pos hbound, Bool.false_eq_true,
    if_false, List.length_nil]
  have hscale : ((0 : Nat) : Int) - (rest.length - (gather (number [c]) rest).2.length : Nat) +
      x.shortest.scientific.2.natAbs =
        x.shortest.exponent + ((gather (number [c]) rest).2.length + zeros : Nat) := by
    rw [List.length_cons] at hexponent
    omega
  rw [hscale]
  exact double?_isSome _ hword fun hnonneg ↦ scaleUp_shortest_isFinite hx hword hplaces hnonneg

end Values

/-- The parts of a number that is laid out positionally. -/
def plain (negative : Bool) (digits : List Char) (e : Int) : Numeral :=
  if e < 0 then
    ⟨negative, ['0'], List.replicate (-e - 1).toNat '0' ++ digits, none⟩
  else
    let whole := digits.take (e.toNat + 1)
    let rest := digits.drop (e.toNat + 1)
    ⟨negative, whole ++ List.replicate (e.toNat + 1 - whole.length) '0',
      if rest = [] then ['0'] else rest, none⟩

def scientific (negative : Bool) (digits : List Char) (e : Int) : Numeral :=
  ⟨negative, digits.take 1, digits.drop 1, some (decide (e < 0), numeral e.natAbs)⟩

/-- The numeral that a double is printed as. -/
def ofDouble (x : Binary64) : Numeral :=
  if x.isZero then ⟨x.isNegative, ['0'], ['0'], none⟩
  else if Binary64.layout.leastPlain ≤ x.shortest.scientific.2 ∧
      x.shortest.scientific.2 ≤ Binary64.layout.mostPlain then
    plain x.isNegative x.shortest.scientific.1 x.shortest.scientific.2
  else scientific x.isNegative x.shortest.scientific.1 x.shortest.scientific.2

section Doubles

variable {negative : Bool} {digits : List Char} {e : Int} {x : Binary64}

theorem written_plain (h : digits = [] → e = 0) :
    (plain negative digits e).written =
      (if negative then ['-'] else []) ++ Binary64.plain digits e := by
  unfold plain Binary64.plain
  by_cases hnegative : e < 0
  · have hne : List.replicate (-e - 1).toNat '0' ++ digits ≠ [] :=
      List.append_ne_nil_of_right_ne_nil _ fun hnone ↦ by
        have hzero := h hnone
        omega
    rw [if_pos hnegative, if_pos hnegative]
    simp only [written, fractionText, exponentText, if_neg hne, List.append_nil, List.cons_append,
      List.nil_append]
  · have hne :
        (if digits.drop (e.toNat + 1) = [] then ['0'] else digits.drop (e.toNat + 1)) ≠ [] := by
      split_ifs with hrest
      · exact List.cons_ne_nil _ _
      · exact hrest
    rw [if_neg hnegative, if_neg hnegative]
    simp only [written, fractionText, exponentText, if_neg hne, List.append_nil]

theorem written_scientific :
    (scientific negative digits e).written =
      (if negative then ['-'] else []) ++ Binary64.scientific digits e := by
  have hfraction : fractionText (digits.drop 1) =
      if digits.length ≤ 1 then [] else '.' :: digits.drop 1 := by
    by_cases hshort : digits.length ≤ 1
    · rw [if_pos hshort, List.drop_eq_nil_iff.mpr hshort]
      rfl
    · rw [if_neg hshort, fractionText, if_neg (List.drop_eq_nil_iff.not.mpr hshort)]
  have hexponent : exponentText (some (decide (e < 0), numeral e.natAbs)) =
      'e' :: (if e < 0 then '-' else '+') :: numeral e.natAbs := by
    simp only [exponentText, decide_eq_true_eq]
  simp only [written, scientific, Binary64.scientific, hfraction, hexponent, List.append_assoc]
  rfl

theorem written_ofDouble (x : Binary64) : (ofDouble x).written = x.text := by
  unfold ofDouble Binary64.text
  cases hzero : x.isZero with
  | true => cases x.isNegative <;> rfl
  | false =>
    simp only [Bool.false_eq_true, if_false]
    by_cases hplain : Binary64.layout.leastPlain ≤ x.shortest.scientific.2 ∧
        x.shortest.scientific.2 ≤ Binary64.layout.mostPlain
    · rw [if_pos hplain, if_pos hplain]
      exact written_plain (Binary64.scientific_of_no_digits hzero)
    · rw [if_neg hplain, if_neg hplain]
      exact written_scientific

theorem wellFormed_plain (hdigits : ∀ c ∈ digits, c.isDigit = true)
    (hhead : digits.head? ≠ some '0') (hnone : digits = [] → e = 0) :
    (plain negative digits e).WellFormed := by
  have hzeros : ∀ k, ∀ c ∈ List.replicate k '0', c.isDigit = true := by
    intro k c hc
    rw [List.eq_of_mem_replicate hc]
    rfl
  unfold plain
  split_ifs with hnegative
  · refine ⟨.inl rfl, hzeros 1, ?_, fun _ _ h ↦ by cases h⟩
    intro c hc
    exact (List.mem_append.mp hc).elim (hzeros _ c) (hdigits c)
  · refine ⟨?_, ?_, ?_, fun _ _ h ↦ by cases h⟩
    · dsimp only
      cases hcases : digits with
      | nil =>
        left
        simp [hnone hcases]
      | cons c rest =>
        right
        rw [hcases] at hhead
        simpa using hhead
    · intro c hc
      exact (List.mem_append.mp hc).elim (fun h ↦ hdigits c (List.mem_of_mem_take h)) (hzeros _ c)
    · intro c hc
      dsimp only at hc
      split_ifs at hc
      · rw [List.mem_singleton.mp hc]
        rfl
      · exact hdigits c (List.mem_of_mem_drop hc)

theorem wellFormed_scientific (hdigits : ∀ c ∈ digits, c.isDigit = true)
    (hhead : digits.head? ≠ some '0') (hne : digits ≠ []) :
    (scientific negative digits e).WellFormed where
  whole := by
    obtain ⟨c, rest, rfl⟩ := List.exists_cons_of_ne_nil hne
    exact .inr ⟨List.cons_ne_nil _ _, hhead⟩
  wholeDigits := fun c hc ↦ hdigits c (List.mem_of_mem_take hc)
  fractionDigits := fun c hc ↦ hdigits c (List.mem_of_mem_drop hc)
  exponentDigits := by
    intro down run hrun
    cases hrun
    exact ⟨numeral_ne_nil _, fun _ ↦ isDigit_of_mem_numeral⟩

theorem wellFormed_ofDouble (x : Binary64) : (ofDouble x).WellFormed := by
  unfold ofDouble
  cases hzero : x.isZero with
  | true =>
    exact ⟨.inl rfl, by simp, by simp, fun _ _ h ↦ by cases h⟩
  | false =>
    have hdigits : ∀ c ∈ x.shortest.scientific.1, c.isDigit = true :=
      fun _ ↦ Binary64.Decimal.isDigit_of_mem_scientific
    have hnone := Binary64.scientific_of_no_digits hzero
    have hhead := x.shortest.head?_scientific
    simp only [Bool.false_eq_true, if_false]
    split_ifs with hplain
    · exact wellFormed_plain hdigits hhead hnone
    · refine wellFormed_scientific hdigits hhead fun hno ↦ hplain ?_
      rw [hnone hno]
      decide

/-- A number that is laid out positionally has at most sixteen digits before the point. -/
theorem plain_parts (negative : Bool) (hdigits : ∀ c ∈ digits, c.isDigit = true)
    (hnone : digits = [] → e = 0) (hmost : e ≤ 15) :
    number (plain negative digits e).whole < UInt64.size ∧
      (plain negative digits e).fraction ≠ [] ∧ (plain negative digits e).exponent = none := by
  have hsize : weight 16 ≤ UInt64.size := by decide
  unfold plain
  split_ifs with hnegative
  · refine ⟨(by decide : number ['0'] < UInt64.size), ?_, rfl⟩
    exact List.append_ne_nil_of_right_ne_nil _ fun h ↦ by
      have hzero := hnone h
      omega
  · refine ⟨?_, ?_, rfl⟩
    · have hrun : ∀ c ∈ digits.take (e.toNat + 1) ++
          List.replicate (e.toNat + 1 - (digits.take (e.toNat + 1)).length) '0',
          c.isDigit = true := by
        intro c hc
        rcases List.mem_append.mp hc with hdigit | hzero
        · exact hdigits c (List.mem_of_mem_take hdigit)
        · rw [List.eq_of_mem_replicate hzero]
          rfl
      refine (number_lt hrun).trans_le ((weight_mono ?_).trans hsize)
      rw [List.length_append, List.length_replicate]
      have hshort := List.length_take_le (e.toNat + 1) digits
      omega
    · dsimp only
      split_ifs with hrest
      · exact List.cons_ne_nil _ _
      · exact hrest

theorem number?_ofDouble {x : Binary64} (hx : x.isFinite = true) :
    (ofDouble x).number?.isSome = true := by
  have hdigits : ∀ c ∈ x.shortest.scientific.1, c.isDigit = true :=
    fun _ ↦ Binary64.Decimal.isDigit_of_mem_scientific
  unfold ofDouble
  cases hzero : x.isZero with
  | true =>
    have hwhole : number ['0'] < UInt64.size := by decide
    exact number?_isSome_of_plain hwhole (List.cons_ne_nil _ _) rfl
  | false =>
    have hnone := Binary64.scientific_of_no_digits hzero
    simp only [Bool.false_eq_true, if_false]
    split_ifs with hplain
    · obtain ⟨hwhole, hfraction⟩ := plain_parts x.isNegative hdigits hnone hplain.2
      exact number?_isSome_of_plain hwhole hfraction.1 hfraction.2
    · have hpos : 0 < x.shortest.digits := by
        by_contra hdigitless
        have hzero := Binary64.Decimal.scientific_of_zero (Nat.eq_zero_of_not_pos hdigitless)
        have hlaid := hnone hzero
        exact hplain (hlaid ▸ by decide)
      by_cases hnegative : x.shortest.scientific.2 < 0
      · have hexponent : (scientific x.isNegative x.shortest.scientific.1
            x.shortest.scientific.2).exponent =
              some (true, numeral x.shortest.scientific.2.natAbs) := by
          rw [scientific, decide_eq_true hnegative]
        exact number?_isSome_of_down (number_take_one_lt hdigits) hexponent
      · have hread := number?_isSome_of_up hx hpos x.isNegative (not_lt.mp hnegative)
        simpa [scientific, hnegative] using hread

end Doubles

end TicketPool.Json.Numeral

namespace TicketPool.Json.Number

/-- The numeral that a number is printed as. -/
def numeral : Number → Numeral
  | int n => ⟨decide (n < 0), Digit.numeral n.natAbs, [], none⟩
  | float x => Numeral.ofDouble x

theorem written_numeral (n : Number) : n.numeral.written = n.chars := by
  cases n with
  | int n =>
    by_cases hnegative : n < 0 <;>
      simp [numeral, Numeral.written, Numeral.fractionText, Numeral.exponentText, chars, intText,
        hnegative]
  | float x => exact Numeral.written_ofDouble x

theorem wellFormed_numeral (n : Number) : n.numeral.WellFormed := by
  cases n with
  | int n =>
    refine ⟨?_, fun _ ↦ Digit.isDigit_of_mem_numeral, by simp [numeral], fun _ _ h ↦ by cases h⟩
    rcases Nat.eq_zero_or_pos n.natAbs with hzero | hpos
    · left
      rw [numeral, hzero]
      rfl
    · exact .inr ⟨Digit.numeral_ne_nil _, Digit.head?_numeral hpos⟩
  | float x => exact Numeral.wellFormed_ofDouble x

/-- An integer is read back as it is. -/
theorem number?_numeral_int {n : Int} (h : (int n).Proper) :
    (int n).numeral.number? = some (int n) := by
  simp only [Proper, least, greatest] at h
  have hword : Digit.number (Digit.numeral n.natAbs) < UInt64.size := by
    have hsize : UInt64.size = 2 ^ 64 := rfl
    rw [Digit.number_numeral]
    omega
  simp only [numeral, Numeral.number?, Numeral.gather_zero hword, Numeral.gather,
    Digit.number_numeral, and_self, if_true, Numeral.integer?, decide_eq_true_eq]
  split_ifs with hnegative hlarge
  · simp only [least] at hlarge
    omega
  · exact congrArg (fun n ↦ some (int n)) (by omega)
  · exact congrArg (fun n ↦ some (int n)) (by omega)

theorem number?_numeral_isSome {n : Number} (h : n.Proper) : n.numeral.number?.isSome = true := by
  cases n with
  | int n =>
    rw [number?_numeral_int h]
    rfl
  | float x => exact Numeral.number?_ofDouble h

end TicketPool.Json.Number

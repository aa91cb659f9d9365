import TicketPool.Proofs.Text.Numerals
import TicketPool.Proofs.Time.Calendar
import TicketPool.Time.Stamp

/-!
# Reading time stamps back

Every instant is read back from its own text, leap seconds and years of any sign and length
included.
-/

namespace TicketPool

theorem Blank.skip_of_isDigit {run rest : List Char} (hrun : ∀ c ∈ run, c.isDigit = true)
    (hne : run ≠ []) : Blank.skip (run ++ rest) = run ++ rest := by
  obtain ⟨c, later, rfl⟩ := List.exists_cons_of_ne_nil hne
  have hbounds := Digit.toNat_of_isDigit (hrun c List.mem_cons_self)
  refine List.dropWhile_cons_of_neg fun hblank ↦ ?_
  simp only [Blank.isBlank, Blank.ranges, List.any_cons, List.any_nil, Bool.or_eq_true,
    Bool.and_eq_true, decide_eq_true_eq, Bool.false_eq_true, or_false] at hblank
  omega

namespace Instant

namespace Stamp

/-- A number goes as far as its digits. -/
theorem number?_append {most : Nat} {run rest : List Char} {c : Char}
    (hrun : ∀ d ∈ run, d.isDigit = true) (hne : run ≠ []) (hlength : run.length ≤ most)
    (hc : c.isDigit = false) :
    number? most (run ++ c :: rest) = some (Digit.number run, c :: rest) := by
  have hdigits : ((run ++ c :: rest).take most).takeWhile Char.isDigit = run := by
    rw [List.take_append, List.take_of_length_le hlength, List.takeWhile_append_of_pos hrun]
    cases most - run.length with
    | zero => simp
    | succ k => simp [hc]
  simp only [number?, hdigits, if_neg hne, List.drop_left]

theorem number?_padded {width n : Nat} {rest : List Char} {c : Char} (hwidth : 0 < width)
    (hn : n < 10 ^ width) (hc : c.isDigit = false) :
    number? width (Blank.skip (Digit.padded width n ++ c :: rest)) = some (n, c :: rest) := by
  have hdigits : ∀ d ∈ Digit.padded width n, d.isDigit = true := fun _ ↦ Digit.isDigit_of_mem_padded
  rw [Blank.skip_of_isDigit hdigits (Digit.padded_ne_nil width n),
    number?_append hdigits (Digit.padded_ne_nil width n)
      (le_of_eq (Digit.length_padded hwidth hn)) hc, Digit.number_padded]

theorem fraction?_padded {width n : Nat} (hwidth : 0 < width) (hnine : width ≤ 9)
    (hn : n < 10 ^ width) :
    fraction? ('.' :: Digit.padded width n ++ ['Z']) =
      some (n * Digit.weight (9 - width), ['Z']) := by
  have hlength := Digit.length_padded hwidth hn
  have hread : number? 9 (Digit.padded width n ++ ['Z']) = some (n, ['Z']) := by
    rw [number?_append (fun _ ↦ Digit.isDigit_of_mem_padded) (Digit.padded_ne_nil width n)
      (hlength.trans_le hnine) rfl, Digit.number_padded]
  simp [fraction?, hread, hlength]

/-- A fraction has three, six or nine digits, as many as it takes. -/
theorem fraction?_fractionText {nanos : Nat} (hnanos : nanos < 1000000000) :
    fraction? (fractionText nanos ++ ['Z']) = some (nanos, ['Z']) := by
  unfold fractionText
  split_ifs with hzero hmillis hmicros
  · rw [hzero]
    rfl
  · rw [fraction?_padded (by decide) (by decide) (by omega)]
    exact congrArg (fun n ↦ some (n, _)) (Nat.div_mul_cancel (Nat.dvd_of_mod_eq_zero hmillis))
  · rw [fraction?_padded (by decide) (by decide) (by omega)]
    exact congrArg (fun n ↦ some (n, _)) (Nat.div_mul_cancel (Nat.dvd_of_mod_eq_zero hmicros))
  · rw [fraction?_padded (by decide) (by decide) (by omega)]
    exact congrArg (fun n ↦ some (n, _)) (Nat.mul_one nanos)

theorem year?_of_isDigit {run rest : List Char} (hrun : ∀ c ∈ run, c.isDigit = true)
    (hne : run ≠ []) :
    year? (run ++ rest) = (number? 4 (run ++ rest)).map fun (n, rest) ↦ ((n : Int), rest) := by
  obtain ⟨c, later, rfl⟩ := List.exists_cons_of_ne_nil hne
  have hc := hrun c List.mem_cons_self
  rw [List.cons_append, year?.eq_3]
  · rintro text htext
    rw [(List.cons.inj htext).1] at hc
    exact absurd hc (by decide)
  · rintro text htext
    rw [(List.cons.inj htext).1] at hc
    exact absurd hc (by decide)

theorem year?_yearText (year : Int) (rest : List Char) :
    year? (Blank.skip (yearText year ++ '-' :: rest)) = some (year, '-' :: rest) := by
  have hdigits : ∀ c ∈ Digit.padded 4 year.natAbs, c.isDigit = true :=
    fun _ ↦ Digit.isDigit_of_mem_padded
  have hne := Digit.padded_ne_nil 4 year.natAbs
  have hread : ∀ most, (Digit.padded 4 year.natAbs).length ≤ most →
      number? most (Digit.padded 4 year.natAbs ++ '-' :: rest) =
        some (year.natAbs, '-' :: rest) := by
    intro most hmost
    rw [number?_append hdigits hne hmost rfl, Digit.number_padded]
  have hsigned := hread (Digit.padded 4 year.natAbs ++ '-' :: rest).length (by simp)
  unfold yearText
  split_ifs with hplain hnegative
  · have hlength : (Digit.padded 4 year.natAbs).length = 4 :=
      Digit.length_padded (by decide) (by omega)
    have hyear : (year.natAbs : Int) = year := by omega
    rw [Blank.skip_of_isDigit hdigits hne, year?_of_isDigit hdigits hne,
      hread 4 (le_of_eq hlength)]
    simp only [Option.map_some, hyear]
  · have hyear : -(year.natAbs : Int) = year := by omega
    rw [List.cons_append, Blank.skip, List.dropWhile_cons_of_neg (by decide)]
    simp only [year?, hsigned, Option.map_some, hyear]
  · have hyear : (year.natAbs : Int) = year := by omega
    rw [List.cons_append, Blank.skip, List.dropWhile_cons_of_neg (by decide)]
    simp only [year?, hsigned, Option.map_some, hyear]

/-- The parts of a time stamp as it is written. -/
theorem parts?_written {year : Int} {month day hour minute second nanos : Nat}
    (hmonth : month < 100) (hday : day < 100) (hhour : hour < 100) (hminute : minute < 100)
    (hsecond : second < 100) (hnanos : nanos < 1000000000) :
    parts? (yearText year ++ '-' :: (Digit.padded 2 month ++ '-' :: (Digit.padded 2 day ++
      'T' :: (Digit.padded 2 hour ++ ':' :: (Digit.padded 2 minute ++
        ':' :: (Digit.padded 2 second ++ (fractionText nanos ++ ['Z']))))))) =
      some ⟨⟨year, month, day⟩, hour, minute, second, nanos, 0⟩ := by
  have hfraction := fraction?_fractionText hnanos
  have hend : ∃ c rest, fractionText nanos ++ ['Z'] = c :: rest ∧ c.isDigit = false := by
    unfold fractionText
    split_ifs
    · exact ⟨'Z', [], rfl, rfl⟩
    · exact ⟨'.', _, rfl, rfl⟩
    · exact ⟨'.', _, rfl, rfl⟩
    · exact ⟨'.', _, rfl, rfl⟩
  obtain ⟨c, rest, hrest, hc⟩ := hend
  have htwo : 0 < 2 := by decide
  rw [hrest] at hfraction ⊢
  refine Option.bind_eq_some_iff.mpr ⟨_, year?_yearText year _, ?_⟩
  refine Option.bind_eq_some_iff.mpr ⟨_, rfl, ?_⟩
  refine Option.bind_eq_some_iff.mpr ⟨_, number?_padded htwo hmonth rfl, ?_⟩
  refine Option.bind_eq_some_iff.mpr ⟨_, rfl, ?_⟩
  refine Option.bind_eq_some_iff.mpr ⟨_, number?_padded htwo hday rfl, ?_⟩
  refine Option.bind_eq_some_iff.mpr ⟨_, rfl, ?_⟩
  refine Option.bind_eq_some_iff.mpr ⟨_, number?_padded htwo hhour rfl, ?_⟩
  refine Option.bind_eq_some_iff.mpr ⟨_, rfl, ?_⟩
  refine Option.bind_eq_some_iff.mpr ⟨_, number?_padded htwo hminute rfl, ?_⟩
  refine Option.bind_eq_some_iff.mpr ⟨_, rfl, ?_⟩
  refine Option.bind_eq_some_iff.mpr ⟨_, number?_padded htwo hsecond hc, ?_⟩
  exact Option.bind_eq_some_iff.mpr ⟨_, hfraction, rfl⟩

end Stamp

/-- Only a leap second has the number 60. -/
theorem second_eq_sixty_iff (t : Instant) :
    (t.secs % 86400).toNat % 60 + t.nanos / 1000000000 = 60 ↔ 1000000000 ≤ t.nanos := by
  have hnanos := t.nanos_lt
  omega

theorem parts?_chars (t : Instant) :
    Stamp.parts? t.chars = some
      { date := Date.ofDays (t.secs / 86400)
        hour := (t.secs % 86400).toNat / 3600
        minute := (t.secs % 86400).toNat / 60 % 60
        second := (t.secs % 86400).toNat % 60 + t.nanos / 1000000000
        nanos := t.nanos % 1000000000
        zone := 0 } := by
  obtain ⟨hvalid, -⟩ := Date.ofDays_spec (t.secs / 86400)
  have hmonth : (Date.ofDays (t.secs / 86400)).month < 100 := by
    have hbound : ∀ month ∈ Date.months, month < 100 := by decide
    exact hbound _ hvalid.1
  have hday : (Date.ofDays (t.secs / 86400)).day < 100 := by
    have hlength : ∀ year month, Date.monthLength year month < 100 := by
      intro year month
      unfold Date.monthLength
      split_ifs <;> decide
    exact hvalid.2.2.trans_lt (hlength _ _)
  have hnanos := t.nanos_lt
  rw [chars]
  simp only [List.append_assoc, List.cons_append]
  exact Stamp.parts?_written hmonth hday (by omega) (by omega) (by omega) (by omega)

theorem ofParts?_self (t : Instant) : ofParts? t.secs t.nanos = some t :=
  dif_pos ⟨t.first_le, t.le_last, t.nanos_lt⟩

theorem ofText?_text (t : Instant) : ofText? t.text = some t := by
  obtain ⟨hvalid, hdays⟩ := Date.ofDays_spec (t.secs / 86400)
  have hfirst := t.first_le
  have hlast := t.le_last
  have hnanos := t.nanos_lt
  unfold firstSecond at hfirst
  unfold lastSecond at hlast
  have hyears : -262143 ≤ (Date.ofDays (t.secs / 86400)).year ∧
      (Date.ofDays (t.secs / 86400)).year ≤ 262142 := by
    apply Date.year_ofDays <;> unfold Date.daysBeforeYear Date.epoch <;> omega
  rw [ofText?, text, String.toList_ofList, ofChars?, parts?_chars, Option.bind_some,
    Stamp.Parts.instant?,
    if_pos ⟨hvalid, hyears.1, hyears.2, by dsimp only; omega, by dsimp only; omega,
      by dsimp only; omega⟩]
  simp only [hdays, second_eq_sixty_iff]
  split_ifs with hleap
  · rw [← ofParts?_self t]
    congr 1 <;> omega
  · rw [← ofParts?_self t]
    congr 1 <;> omega

end Instant

end TicketPool

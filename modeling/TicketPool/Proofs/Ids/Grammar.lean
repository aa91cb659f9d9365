import TicketPool.Proofs.Ids.Order
import TicketPool.Proofs.Text.Numerals

/-!
# The grammar of ids

An id is written as two runs of digits around one dash.  The reader of ids takes just the texts of
this form whose two numbers have 64 bits, and the reader of ages asks the same of the part before
the first dash alone.  Leading zeros do not count: an id that has been read is printed without them.
-/

namespace TicketPool

namespace Digit

/-- A run without its leading zeros.  Of a run of zeros the last one stays. -/
def bare : List Char → List Char
  | '0' :: c :: rest => bare (c :: rest)
  | run => run

theorem numeral_digit {c : Char} (h : c.isDigit = true) : numeral (c.toNat - 48) = [c] := by
  have hbounds := toNat_of_isDigit h
  have hsmall : c.toNat - 48 < 10 := by omega
  have hrebuilt : (c.toNat - 48).digitChar = c := by
    apply Char.toNat_inj.mp
    rw [Nat.toNat_digitChar_of_lt_ten hsmall]
    omega
  exact (Nat.toDigits_of_lt_base hsmall).trans (congrArg (fun d ↦ [d]) hrebuilt)

/-- Digits behind the numeral of a positive number are part of a longer numeral. -/
theorem numeral_append {run : List Char} (hrun : ∀ c ∈ run, c.isDigit = true) {n : Nat}
    (hn : 0 < n) : numeral n ++ run = numeral (Nat.ofDigitChars 10 run n) := by
  induction run generalizing n with
  | nil => simp
  | cons c rest ih =>
    obtain ⟨hc, hrest⟩ := List.forall_mem_cons.mp hrun
    have hbounds := toNat_of_isDigit hc
    have hlonger : numeral n ++ [c] = numeral (10 * n + (c.toNat - 48)) := by
      rw [← numeral_digit hc]
      exact Nat.toDigits_append_toDigits (by decide) hn (by omega)
    calc numeral n ++ c :: rest
      _ = numeral n ++ [c] ++ rest := by simp
      _ = numeral (Nat.ofDigitChars 10 rest (10 * n + (c.toNat - 48))) := by
        rw [hlonger, ih hrest (by omega)]
      _ = numeral (Nat.ofDigitChars 10 (c :: rest) n) := by rw [Nat.ofDigitChars_cons]; rfl

theorem numeral_number {run : List Char} (hne : run ≠ []) (hrun : ∀ c ∈ run, c.isDigit = true) :
    numeral (number run) = bare run := by
  fun_induction bare run with
  | case1 c rest ih =>
    rw [← ih (List.cons_ne_nil c rest) (List.forall_mem_cons.mp hrun).2]
    rfl
  | case2 run hlead =>
    obtain ⟨c, rest, rfl⟩ := List.exists_cons_of_ne_nil hne
    obtain ⟨hc, hrest⟩ := List.forall_mem_cons.mp hrun
    have hnumber : number (c :: rest) = Nat.ofDigitChars 10 rest (c.toNat - 48) := by
      rw [number, Nat.ofDigitChars_cons]
      simp
    by_cases hzero : c.toNat - 48 = 0
    · have hbounds := toNat_of_isDigit hc
      have hc : c = '0' := Char.toNat_inj.mp (by change c.toNat = 48; omega)
      cases rest with
      | nil => rw [hnumber, hc]; rfl
      | cons d rest => exact absurd (by rw [hc]) (hlead d rest)
    · rw [hnumber, ← numeral_append hrest (by omega), numeral_digit hc]
      rfl

/-- A nonempty run of ASCII digits that stands for a number of 64 bits. -/
structure IsWord (run : List Char) : Prop where
  ne_nil : run ≠ []
  digits : ∀ c ∈ run, c.isDigit = true
  fits : number run < 2 ^ 64

theorem word?_eq_some {run : List Char} {w : UInt64} :
    word? run = some w ↔ IsWord run ∧ w.toNat = number run := by
  rw [word?_eq_some_iff]
  constructor
  · rintro ⟨hne, hdigits, hvalue⟩
    exact ⟨⟨hne, hdigits, hvalue ▸ w.toNat_lt⟩, hvalue⟩
  · rintro ⟨h, hvalue⟩
    exact ⟨h.ne_nil, h.digits, hvalue⟩

end Digit

namespace LogId

open Digit

/-- The part of a text before its first dash, or all of it when it has none. -/
def Heads (front : List Char) (s : String) : Prop :=
  '-' ∉ front ∧ (s.toList = front ∨ ∃ back, s.toList = front ++ '-' :: back)

variable {s : String} {front back : List Char} {id : LogId}

theorem heads_takeWhile (s : String) : Heads (s.toList.takeWhile (· ≠ '-')) s := by
  refine ⟨fun hdash ↦ by simpa using List.mem_takeWhile_imp hdash, ?_⟩
  have hsplit := @List.takeWhile_append_dropWhile _ (· ≠ '-') s.toList
  cases hdrop : s.toList.dropWhile (· ≠ '-') with
  | nil =>
    rw [hdrop, List.append_nil] at hsplit
    exact .inl hsplit.symm
  | cons c back =>
    have hstop := List.head?_dropWhile_not (· ≠ '-') s.toList
    rw [hdrop] at hstop
    obtain rfl : c = '-' := by simpa using hstop
    rw [hdrop] at hsplit
    exact .inr ⟨back, hsplit.symm⟩

theorem creationMillis?_of_heads (h : Heads front s) : creationMillis? s = word? front := by
  obtain ⟨hfree, hall | ⟨back, hsplit⟩⟩ := h
  · have htake : front.takeWhile (· ≠ '-') = front :=
      List.takeWhile_eq_self_iff.mpr (ne_dash_of_mem hfree)
    rw [creationMillis?, hall, htake]
  · exact creationMillis?_of_split hfree hsplit

theorem creationMillis?_eq_some {born : UInt64} : creationMillis? s = some born ↔
    ∃ front, Heads front s ∧ IsWord front ∧ born.toNat = number front := by
  constructor
  · intro hread
    exact ⟨_, heads_takeWhile s, word?_eq_some.mp hread⟩
  · rintro ⟨front, h, hword⟩
    rw [creationMillis?_of_heads h]
    exact word?_eq_some.mpr hword

theorem ofText?_of_words (hfront : IsWord front) (hsplit : s.toList = front ++ '-' :: back) :
    ofText? s = some id ↔
      IsWord back ∧ id.millis.toNat = number front ∧ id.seq.toNat = number back := by
  obtain ⟨millis, seq⟩ := id
  simp only [ofText?_of_split (dash_notMem_of_digits hfront.digits) hsplit,
    Option.bind_eq_some_iff, Option.map_eq_some_iff, word?_eq_some, LogId.mk.injEq]
  constructor
  · rintro ⟨_, ⟨-, hmillis⟩, _, ⟨hback, hseq⟩, rfl, rfl⟩
    exact ⟨hback, hmillis, hseq⟩
  · rintro ⟨hback, hmillis, hseq⟩
    exact ⟨millis, ⟨hfront, hmillis⟩, seq, ⟨hback, hseq⟩, rfl, rfl⟩

theorem exists_split_of_ofText? (h : ofText? s = some id) :
    ∃ front back, s.toList = front ++ '-' :: back ∧ IsWord front := by
  obtain ⟨hfree, hall | ⟨back, hsplit⟩⟩ := heads_takeWhile s
  · -- a text without a dash is refused
    have hnone : s.toList.dropWhile (· ≠ '-') = [] :=
      List.dropWhile_eq_nil_iff.mpr (List.takeWhile_eq_self_iff.mp hall.symm)
    rw [ofText?, hnone] at h
    cases h
  · rw [ofText?_of_split hfree hsplit] at h
    obtain ⟨millis, hfront, -⟩ := Option.bind_eq_some_iff.mp h
    exact ⟨_, back, hsplit, (word?_eq_some.mp hfront).1⟩

theorem ofText?_eq_some : ofText? s = some id ↔ ∃ front back, s.toList = front ++ '-' :: back ∧
    IsWord front ∧ IsWord back ∧ id.millis.toNat = number front ∧ id.seq.toNat = number back := by
  constructor
  · intro h
    obtain ⟨front, back, hsplit, hfront⟩ := exists_split_of_ofText? h
    obtain ⟨hback, hvalues⟩ := (ofText?_of_words hfront hsplit).mp h
    exact ⟨front, back, hsplit, hfront, hback, hvalues⟩
  · rintro ⟨front, back, hsplit, hfront, hrest⟩
    exact (ofText?_of_words hfront hsplit).mpr hrest

/-- What is printed of an id that has been read. -/
theorem chars_of_ofText? (h : ofText? s = some id) (hfront : IsWord front)
    (hsplit : s.toList = front ++ '-' :: back) : id.chars = bare front ++ '-' :: bare back := by
  obtain ⟨hback, hmillis, hseq⟩ := (ofText?_of_words hfront hsplit).mp h
  rw [chars, hmillis, hseq, numeral_number hfront.ne_nil hfront.digits,
    numeral_number hback.ne_nil hback.digits]

/-- The reader of ids takes just two runs of digits around a dash that stand for 64-bit numbers,
and the reader of ages just a first part of this kind.  So they agree on every id, and printing an
id that was read loses nothing but leading zeros. -/
theorem readers_exact (s : String) :
    (∀ id, ofText? s = some id ↔ ∃ front back, s.toList = front ++ '-' :: back ∧
      IsWord front ∧ IsWord back ∧
      id.millis.toNat = number front ∧ id.seq.toNat = number back) ∧
    (∀ id front back, ofText? s = some id → IsWord front → s.toList = front ++ '-' :: back →
      id.text = .ofList (bare front ++ '-' :: bare back)) ∧
    (∀ id : LogId, ofText? id.text = some id) ∧
    (∀ born, creationMillis? s = some born ↔
      ∃ front, Heads front s ∧ IsWord front ∧ born.toNat = number front) ∧
    ∀ id, ofText? s = some id → creationMillis? s = some id.millis := by
  refine ⟨fun _ ↦ ofText?_eq_some, ?_, ofText?_text, fun _ ↦ creationMillis?_eq_some, ?_⟩
  · intro id front back h hfront hsplit
    exact congrArg String.ofList (chars_of_ofText? h hfront hsplit)
  · intro id h
    obtain ⟨front, back, hsplit, hfront, -, hmillis, -⟩ := ofText?_eq_some.mp h
    have hheads : Heads front s := ⟨dash_notMem_of_digits hfront.digits, .inr ⟨back, hsplit⟩⟩
    exact creationMillis?_eq_some.mpr ⟨front, hheads, hfront, hmillis⟩

end LogId

end TicketPool

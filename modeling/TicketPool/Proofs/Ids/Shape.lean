import TicketPool.Proofs.Ids.Order
import TicketPool.Proofs.Store.Sweeping
import TicketPool.Proofs.Text.Numerals

/-!
# Keys with the shape of an id

The shape of an id leaves open of which script its digits are and how long the second run is.  The
readers want ASCII digits and numbers of 64 bits.  So a key of the right shape need not be the text
of an id, and if one of its first thirteen digits is foreign, no sweep ever takes what is kept under
it.
-/

namespace TicketPool

namespace LogId

/-- The two runs of digits of a text with the shape of an id. -/
structure Runs (s : String) (front back : List Char) : Prop where
  split : s.toList = front ++ '-' :: back
  length_front : front.length = 13
  back_ne_nil : back ≠ []
  digits : ∀ c ∈ front, DecimalDigit.isDecimalDigit c = true

theorem runs_of_hasShape {s : String} (h : hasShape s = true) :
    Runs s (s.toList.take 13) (s.toList.drop 14) := by
  obtain ⟨hfront, hrest⟩ := Bool.and_eq_true_iff.mp h
  cases hdrop : s.toList.drop 13 with
  | nil => simp [hdrop] at hrest
  | cons c back =>
    have hdash : c = '-' := by
      by_contra hother
      simp [hdrop, hother] at hrest
    subst hdash
    have hback : s.toList.drop 14 = back := by
      rw [← List.drop_drop (i := 1), hdrop, List.drop_one, List.tail_cons]
    have hlength := congrArg List.length hdrop
    rw [List.length_drop, List.length_cons] at hlength
    refine ⟨?_, ?_, ?_, List.all_eq_true.mp hfront⟩
    · rw [hback, ← hdrop, List.take_append_drop]
    · rw [List.length_take]
      omega
    · rw [hback]
      rintro rfl
      simp [hdrop] at hrest

namespace Runs

variable {s : String} {front back : List Char} (h : Runs s front back)
include h

theorem free : '-' ∉ front :=
  fun hdash ↦ absurd (h.digits '-' hdash) (by decide)

theorem creationMillis?_eq : creationMillis? s = Digit.word? front :=
  creationMillis?_of_split h.free h.split

theorem ofText?_eq :
    ofText? s = (Digit.word? front).bind fun millis ↦ (Digit.word? back).map (⟨millis, ·⟩) :=
  ofText?_of_split h.free h.split

theorem creationMillis?_eq_some_iff {born : UInt64} : creationMillis? s = some born ↔
    (∀ c ∈ front, c.isDigit = true) ∧ born.toNat = Digit.number front := by
  have hne : front ≠ [] := by
    rintro rfl
    exact absurd h.length_front (by decide)
  rw [h.creationMillis?_eq, Digit.word?_eq_some_iff]
  exact and_iff_right hne

theorem ofText?_eq_some_iff {id : LogId} : ofText? s = some id ↔
    (∀ c ∈ front ++ back, c.isDigit = true) ∧ id.millis.toNat = Digit.number front ∧
      id.seq.toNat = Digit.number back := by
  have hne : front ≠ [] := by
    rintro rfl
    exact absurd h.length_front (by decide)
  obtain ⟨millis, seq⟩ := id
  simp only [h.ofText?_eq, Option.bind_eq_some_iff, Option.map_eq_some_iff, LogId.mk.injEq,
    Digit.word?_eq_some_iff, List.forall_mem_append]
  constructor
  · rintro ⟨_, ⟨-, hfront, hmillis⟩, _, ⟨-, hback, hseq⟩, rfl, rfl⟩
    exact ⟨⟨hfront, hback⟩, hmillis, hseq⟩
  · rintro ⟨⟨hfront, hback⟩, hmillis, hseq⟩
    exact ⟨millis, ⟨hne, hfront, hmillis⟩, seq, ⟨h.back_ne_nil, hback, hseq⟩, rfl, rfl⟩

/-- Thirteen digits stand for less than 64 bits, so some word is the age. -/
theorem exists_creationMillis?_iff :
    (∃ born, creationMillis? s = some born) ↔ ∀ c ∈ front, c.isDigit = true := by
  simp only [h.creationMillis?_eq_some_iff]
  constructor
  · rintro ⟨born, hdigits, -⟩
    exact hdigits
  · intro hdigits
    have hnumber := Digit.number_lt hdigits
    rw [h.length_front] at hnumber
    have hfits : Digit.number front < UInt64.size := hnumber.trans (by decide)
    exact ⟨.ofNat (Digit.number front), hdigits, UInt64.toNat_ofNat_of_lt hfits⟩

theorem exists_ofText?_iff : (∃ id, ofText? s = some id) ↔
    (∀ c ∈ front ++ back, c.isDigit = true) ∧ Digit.number back < 2 ^ 64 := by
  simp only [h.ofText?_eq_some_iff]
  constructor
  · rintro ⟨id, hdigits, -, hseq⟩
    exact ⟨hdigits, hseq ▸ id.seq.toNat_lt⟩
  · rintro ⟨hdigits, hfits⟩
    have hfront := (List.forall_mem_append.mp hdigits).1
    obtain ⟨born, hread⟩ := h.exists_creationMillis?_iff.mpr hfront
    obtain ⟨-, hborn⟩ := h.creationMillis?_eq_some_iff.mp hread
    exact ⟨⟨born, .ofNat (Digit.number back)⟩, hdigits, hborn, UInt64.toNat_ofNat_of_lt hfits⟩

theorem isAged_iff {now ttl : UInt64} : isAged now ttl s = true ↔
    (∀ c ∈ front, c.isDigit = true) ∧ Digit.number front + ttl.toNat < now.toNat := by
  simp only [TicketPool.isAged_iff, h.creationMillis?_eq_some_iff, UInt64.lt_iff_toNat_lt,
    toNat_monus]
  constructor
  · rintro ⟨born, ⟨hdigits, hborn⟩, hold⟩
    exact ⟨hdigits, by omega⟩
  · rintro ⟨hdigits, hold⟩
    obtain ⟨born, hread⟩ := h.exists_creationMillis?_iff.mpr hdigits
    obtain ⟨-, hborn⟩ := h.creationMillis?_eq_some_iff.mp hread
    exact ⟨born, ⟨hdigits, hborn⟩, by omega⟩

end Runs

end LogId

namespace Store

variable {key : String} {front back : List Char}

def sweepAll (s : Store) (rules : List SweepRule) : Store :=
  rules.foldl (fun s rule ↦ s.sweep rule) s

/-- A key without an age is passed over by every sweep. -/
theorem sweepAll_of_unread (hunread : LogId.creationMillis? key = none) (s : Store)
    (rules : List SweepRule) :
    (s.sweepAll rules).isInactive key = s.isInactive key ∧
      (s.sweepAll rules).assignment? key = s.assignment? key := by
  have hyoung : ∀ now ttl, isAged now ttl key = false := by
    intro now ttl
    rw [isAged, hunread]
  induction rules generalizing s with
  | nil => exact ⟨rfl, rfl⟩
  | cons rule rest ih =>
    obtain ⟨hmarked, hassignment⟩ := ih (s.sweep rule)
    have hview := view_sweep rule s key
    simp only [KeyView.sweep, hyoung, Bool.not_false, Bool.and_true, Bool.false_eq_true, if_false]
      at hview
    exact ⟨hmarked.trans (congrArg KeyView.marked hview),
      hassignment.trans (congrArg KeyView.assignment hview)⟩

theorem isInactive_sweep_of_runs (h : LogId.Runs key front back) (s : Store) (rule : SweepRule) :
    (s.sweep rule).isInactive key = true ↔ s.isInactive key = true ∧
      ¬ ((∀ c ∈ front, c.isDigit = true) ∧
        Digit.number front + rule.ticketTtl.millis.toNat < rule.now.millis.toNat) := by
  rw [isInactive_sweep, Bool.not_eq_true', ← Bool.not_eq_true, h.isAged_iff]

theorem assignment?_sweep_of_runs (h : LogId.Runs key front back) (s : Store) (rule : SweepRule)
    (assignment : Assignment) :
    (s.sweep rule).assignment? key = some assignment ↔ s.assignment? key = some assignment ∧
      ¬ ((∀ c ∈ front, c.isDigit = true) ∧
        Digit.number front + rule.assignmentTtl.millis.toNat < rule.now.millis.toNat) := by
  rw [← h.isAged_iff, Bool.not_eq_true, ← Bool.not_eq_true']
  exact assignments_sweep rule s key assignment

end Store

/-- A key of the right shape is the text of an id if its digits are all ASCII and its second number
has 64 bits, and it has an age if its first thirteen digits are ASCII.  Then sweeps take what is
kept under it when the time has come, and otherwise they never do. -/
theorem shaped_key_swept_iff {key : String} (hshape : LogId.hasShape key = true) :
    let front := key.toList.take 13
    let back := key.toList.drop 14
    ((∃ id, LogId.ofText? key = some id) ↔
      (∀ c ∈ front ++ back, c.isDigit = true) ∧ Digit.number back < 2 ^ 64) ∧
    (∀ id, LogId.ofText? key = some id → LogId.creationMillis? key = some id.millis ∧
      id.millis.toNat = Digit.number front ∧ id.seq.toNat = Digit.number back) ∧
    ((∃ born, LogId.creationMillis? key = some born) ↔ ∀ c ∈ front, c.isDigit = true) ∧
    (∀ (s : Store) (rule : SweepRule), (s.sweep rule).isInactive key = true ↔
      s.isInactive key = true ∧ ¬ ((∀ c ∈ front, c.isDigit = true) ∧
        Digit.number front + rule.ticketTtl.millis.toNat < rule.now.millis.toNat)) ∧
    (∀ (s : Store) (rule : SweepRule) (assignment : Assignment),
      (s.sweep rule).assignment? key = some assignment ↔
        s.assignment? key = some assignment ∧ ¬ ((∀ c ∈ front, c.isDigit = true) ∧
          Digit.number front + rule.assignmentTtl.millis.toNat < rule.now.millis.toNat)) ∧
    ((∃ c ∈ front, c.isDigit = false) → ∀ (s : Store) (rules : List SweepRule),
      (s.sweepAll rules).isInactive key = s.isInactive key ∧
        (s.sweepAll rules).assignment? key = s.assignment? key) := by
  intro front back
  have h : LogId.Runs key front back := LogId.runs_of_hasShape hshape
  refine ⟨h.exists_ofText?_iff, ?_, h.exists_creationMillis?_iff,
    Store.isInactive_sweep_of_runs h, Store.assignment?_sweep_of_runs h, ?_⟩
  · intro id hread
    obtain ⟨hdigits, hmillis, hseq⟩ := h.ofText?_eq_some_iff.mp hread
    have hfront := (List.forall_mem_append.mp hdigits).1
    exact ⟨h.creationMillis?_eq_some_iff.mpr ⟨hfront, hmillis⟩, hmillis, hseq⟩
  · rintro ⟨c, hc, hforeign⟩
    have hunread : LogId.creationMillis? key = none := by
      rw [Option.eq_none_iff_forall_ne_some]
      intro born hborn
      have hdigit := (h.creationMillis?_eq_some_iff.mp hborn).1 c hc
      simp [hforeign] at hdigit
    exact Store.sweepAll_of_unread hunread

/-- Thirteen Arabic ones, a dash and an Arabic zero. -/
def arabicKey : String :=
  .ofList (List.replicate 13 '\u0661' ++ ['-', '\u0660'])

/-- A key with foreign digits has the right shape and is never taken by a sweep, not even by the
latest one.  A number of more than 64 bits behind the dash is no number of an id. -/
theorem arabicKey_never_swept :
    let latest : SweepRule := ⟨.latest, .ofMillis 0, .ofMillis 0⟩
    let marked := Store.empty.run .json [.update (.deactivate arabicKey), .sweep latest]
    LogId.hasShape arabicKey = true ∧ LogId.ofText? arabicKey = none ∧
      LogId.creationMillis? arabicKey = none ∧ marked.isInactive arabicKey = true ∧
      LogId.hasShape "1700000000000-18446744073709551616" = true ∧
      LogId.ofText? "1700000000000-18446744073709551616" = none := by
  decide +kernel

theorem arabicKey_passed_over :
    LogId.hasShape arabicKey = true ∧
    (∀ (s : Store) (rules : List SweepRule),
      (s.sweepAll rules).isInactive arabicKey = s.isInactive arabicKey) ∧
    LogId.hasShape "1700000000000-7" = true ∧
    LogId.ofText? "1700000000000-7" = some ⟨1700000000000, 7⟩ ∧
    LogId.creationMillis? "1700000000000-7" = some 1700000000000 := by
  have hforeign : LogId.hasShape arabicKey = true := by decide +kernel
  have hplain : LogId.hasShape "1700000000000-7" = true := by decide +kernel
  have hread : LogId.ofText? "1700000000000-7" = some ⟨1700000000000, 7⟩ := by decide +kernel
  obtain ⟨-, -, -, -, -, hstays⟩ := shaped_key_swept_iff hforeign
  obtain ⟨-, hage, -⟩ := shaped_key_swept_iff hplain
  have hone : '\u0661' ∈ arabicKey.toList.take 13 := by
    have hsplit : arabicKey.toList = List.replicate 13 '\u0661' ++ ['-', '\u0660'] :=
      String.toList_ofList
    have hlength : 13 ≤ (List.replicate 13 '\u0661').length :=
      Nat.le_of_eq List.length_replicate.symm
    rw [hsplit, List.take_append_of_le_length hlength, List.take_replicate]
    exact List.mem_replicate.mpr ⟨by decide, rfl⟩
  refine ⟨hforeign, ?_, hplain, hread, (hage _ hread).1⟩
  intro s rules
  exact (hstays ⟨'\u0661', hone, by decide⟩ s rules).1

end TicketPool

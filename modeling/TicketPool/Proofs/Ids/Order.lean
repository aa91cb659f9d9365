import Mathlib.Algebra.Group.Nat.Defs
import Mathlib.Order.Defs.LinearOrder
import TicketPool.LogId

/-!
# The order of ids

Ids are ordered by their millisecond and then by their number, the text of an id
determines it, and the source of ids gives out ever larger ones as long as the number
within a millisecond has room to grow.
-/

namespace TicketPool

namespace LogId

theorem lt_iff_toNat {a b : LogId} :
    a < b ↔ a.millis.toNat < b.millis.toNat ∨
      a.millis.toNat = b.millis.toNat ∧ a.seq.toNat < b.seq.toNat := by
  rw [lt_def, UInt64.lt_iff_toNat_lt, UInt64.lt_iff_toNat_lt, UInt64.toNat_inj]

theorem le_iff_toNat {a b : LogId} :
    a ≤ b ↔ a.millis.toNat < b.millis.toNat ∨
      a.millis.toNat = b.millis.toNat ∧ a.seq.toNat ≤ b.seq.toNat := by
  rw [le_def, UInt64.lt_iff_toNat_lt, UInt64.le_iff_toNat_le, UInt64.toNat_inj]

theorem eq_of_toNat {a b : LogId} (hmillis : a.millis.toNat = b.millis.toNat)
    (hseq : a.seq.toNat = b.seq.toNat) : a = b := by
  obtain ⟨m, s⟩ := a
  obtain ⟨n, t⟩ := b
  rw [mk.injEq]
  exact ⟨UInt64.toNat_inj.mp hmillis, UInt64.toNat_inj.mp hseq⟩

instance : LinearOrder LogId where
  le_refl a := by
    rw [le_iff_toNat]
    omega
  le_trans a b c hab hbc := by
    rw [le_iff_toNat] at hab hbc ⊢
    omega
  lt_iff_le_not_ge a b := by
    rw [lt_iff_toNat, le_iff_toNat, le_iff_toNat]
    omega
  le_antisymm a b hab hba := by
    rw [le_iff_toNat] at hab hba
    apply eq_of_toNat <;> omega
  le_total a b := by
    rw [le_iff_toNat, le_iff_toNat]
    omega
  toDecidableLE := inferInstance
  toDecidableEq := inferInstance
  toDecidableLT := inferInstance

section Split

variable {s : String} {front back : List Char}

theorem dash_notMem_of_digits (h : ∀ c ∈ front, c.isDigit = true) : '-' ∉ front :=
  fun hdash ↦ absurd (h '-' hdash) (by decide)

theorem ne_dash_of_mem (hfree : '-' ∉ front) : ∀ c ∈ front, decide (c ≠ '-') = true :=
  fun _ hc ↦ decide_eq_true (ne_of_mem_of_not_mem hc hfree)

theorem creationMillis?_of_split (hfree : '-' ∉ front) (hsplit : s.toList = front ++ '-' :: back) :
    creationMillis? s = Digit.word? front := by
  rw [creationMillis?, hsplit, List.takeWhile_append_of_pos (ne_dash_of_mem hfree)]
  simp

theorem ofText?_of_split (hfree : '-' ∉ front) (hsplit : s.toList = front ++ '-' :: back) :
    ofText? s = (Digit.word? front).bind fun millis ↦ (Digit.word? back).map (⟨millis, ·⟩) := by
  have htake : s.toList.takeWhile (· ≠ '-') = front := by
    rw [hsplit, List.takeWhile_append_of_pos (ne_dash_of_mem hfree)]
    simp
  have hdrop : s.toList.dropWhile (· ≠ '-') = '-' :: back := by
    rw [hsplit, List.dropWhile_append_of_pos (ne_dash_of_mem hfree)]
    simp
  rw [ofText?, htake, hdrop]
  cases Digit.word? front <;> cases hback : Digit.word? back <;> simp [hback]

end Split

theorem toList_text (id : LogId) : id.text.toList = id.chars :=
  String.toList_ofList

theorem dash_notMem_numeral (n : Nat) : '-' ∉ Digit.numeral n :=
  dash_notMem_of_digits fun _ ↦ Digit.isDigit_of_mem_numeral

theorem ofText?_text (id : LogId) : ofText? id.text = some id := by
  rw [ofText?_of_split (dash_notMem_numeral _) id.toList_text]
  simp

theorem creationMillis?_text (id : LogId) : creationMillis? id.text = some id.millis := by
  rw [creationMillis?_of_split (dash_notMem_numeral _) id.toList_text]
  simp

theorem text_injective {a b : LogId} (h : a.text = b.text) : a = b := by
  apply Option.some.inj
  rw [← ofText?_text, ← ofText?_text, h]

end LogId

namespace IdSource

variable {source : IdSource} {last : LogId}

theorem nextId_of_last (hlast : source.last = some last) (now : UInt64) :
    source.nextId now =
      if now ≤ last.millis then ⟨last.millis, last.seq + 1⟩ else LogId.ofMillis now := by
  simp only [nextId, hlast]

theorem last_lt_nextId (hlast : source.last = some last) (hroom : last.seq.toNat + 1 < 2 ^ 64)
    (now : UInt64) : last < source.nextId now := by
  rw [nextId_of_last hlast, LogId.lt_iff_toNat]
  split
  · right
    rw [UInt64.toNat_add, UInt64.toNat_one, Nat.mod_eq_of_lt hroom]
    exact ⟨rfl, Nat.lt_succ_self _⟩
  · rename_i hforward
    left
    exact UInt64.lt_iff_toNat_lt.mp (UInt64.not_le.mp hforward)

theorem seq_nextId_le (hlast : source.last = some last) (now : UInt64) :
    (source.nextId now).seq.toNat ≤ last.seq.toNat + 1 := by
  rw [nextId_of_last hlast]
  split
  · rw [UInt64.toNat_add, UInt64.toNat_one]
    exact Nat.mod_le _ _
  · exact Nat.zero_le _

theorem le_millis_nextId (source : IdSource) (now : UInt64) : now ≤ (source.nextId now).millis := by
  cases hlast : source.last with
  | none => simp [nextId, hlast, LogId.ofMillis]
  | some last =>
    rw [nextId_of_last hlast]
    split_ifs with hback
    · exact hback
    · exact UInt64.le_refl now

theorem seq_nextId_of_none (hlast : source.last = none) (now : UInt64) :
    (source.nextId now).seq.toNat = 0 := by
  simp only [nextId, hlast, LogId.ofMillis, UInt64.toNat_zero]

end IdSource

end TicketPool

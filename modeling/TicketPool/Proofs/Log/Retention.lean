import Mathlib.Data.List.Sort
import TicketPool.Log
import TicketPool.Proofs.Ids.Order

/-!
# What a log keeps

A log is compared with the list of all entries that it has ever been given, its history.
What the log keeps is the end of its history, and the ids of a history ascend.  A look
behind a cursor searches by halves and still finds all that is kept behind the cursor.
-/

namespace TicketPool

def Entry.Before (a b : Entry) : Prop :=
  a.id < b.id

/-- Each id has a next one: none has the last number of its millisecond. -/
def Entry.Roomy (history : List Entry) : Prop :=
  ∀ e ∈ history, e.id.seq.toNat + 1 < 2 ^ 64

/-- The number of each id is less than the number of entries. -/
def Entry.Numbered (history : List Entry) : Prop :=
  ∀ e ∈ history, e.id.seq.toNat < history.length

namespace Entry

instance : Std.Irrefl Before where
  irrefl a := lt_irrefl a.id

instance : Std.Antisymm Before where
  antisymm _ _ hab hba := absurd hab (lt_asymm hba)

variable {l : List Entry} {e x : Entry} {n : Nat}

theorem le_of_getLast? (hl : l.Pairwise Before) (hx : l.getLast? = some x) (he : e ∈ l) :
    e.id ≤ x.id := by
  obtain ⟨front, rfl⟩ := List.getLast?_eq_some_iff.mp hx
  rcases List.mem_append.mp he with hfront | hlast
  · have hbefore := (List.pairwise_append.mp hl).2.2 e hfront x (List.mem_singleton_self x)
    exact le_of_lt hbefore
  · rw [List.mem_singleton.mp hlast]

theorem mem_take_iff (hl : l.Pairwise Before) (hx : (l.take n).getLast? = some x) :
    e ∈ l.take n ↔ e ∈ l ∧ e.id ≤ x.id := by
  have hparts : (l.take n ++ l.drop n).Pairwise Before := by
    rwa [List.take_append_drop]
  obtain ⟨hfront, -, hcross⟩ := List.pairwise_append.mp hparts
  constructor
  · intro he
    exact ⟨List.mem_of_mem_take he, le_of_getLast? hfront hx he⟩
  · rintro ⟨he, hle⟩
    rw [← List.take_append_drop n l] at he
    refine (List.mem_append.mp he).resolve_right fun hback ↦ ?_
    exact absurd (hcross x (List.mem_of_getLast? hx) e hback) (not_lt.mpr hle)

instance (history : List Entry) : Decidable (Roomy history) :=
  inferInstanceAs (Decidable (∀ e ∈ history, _))

theorem Roomy.of_prefix {later : List Entry} (h : Roomy later) (hl : l <+: later) : Roomy l :=
  fun e he ↦ h e (hl.subset he)

theorem Numbered.roomy (h : Numbered l) (hlength : l.length < 2 ^ 64) : Roomy l := by
  intro e he
  have hnumber := h e he
  omega

theorem filter_le_prefix (hl : l.Pairwise Before) (cursor : LogId) :
    l.filter (fun e ↦ e.id ≤ cursor) <+: l := by
  induction l with
  | nil => exact List.prefix_refl _
  | cons e rest ih =>
    obtain ⟨hfirst, hrest⟩ := List.pairwise_cons.mp hl
    by_cases he : e.id ≤ cursor
    · rw [List.filter_cons_of_pos (by simpa using he), List.prefix_cons_inj]
      exact ih hrest
    · have hnone : rest.filter (fun e ↦ e.id ≤ cursor) = [] := by
        rw [List.filter_eq_nil_iff]
        intro later hlater hle
        exact he ((le_of_lt (hfirst later hlater)).trans (of_decide_eq_true hle))
      rw [List.filter_cons_of_neg (by simpa using he), hnone]
      exact List.nil_prefix

end Entry

namespace Log

/-- Where the entries that pass a test end, if they come first. -/
theorem lt_boundary_iff (entries : Array Entry) (passes : Entry → Bool)
    (hsorted : ∀ i j (hi : i < entries.size) (hj : j < entries.size), i ≤ j →
      passes entries[j] → passes entries[i])
    (low high : Nat) (hbound : high ≤ entries.size) (hlow : low ≤ high)
    (hbelow : ∀ i (hi : i < entries.size), i < low → passes entries[i])
    (habove : ∀ i (hi : i < entries.size), high ≤ i → ¬ passes entries[i]) :
    ∀ i (hi : i < entries.size),
      i < boundary entries passes low high hbound ↔ passes entries[i] := by
  fun_induction boundary entries passes low high hbound with
  | case1 low high hbound hless middle inside hpass ih =>
    refine ih (by omega) ?_ habove
    intro i hi hmiddle
    exact hsorted i middle hi inside (by omega) hpass
  | case2 low high hbound hless middle inside hfail ih =>
    refine ih (by omega) hbelow ?_
    intro i hi hmiddle hpass
    exact hfail (hsorted middle i inside hi hmiddle hpass)
  | case3 low high hbound hless =>
    intro i hi
    constructor
    · exact hbelow i hi
    · intro hpass
      by_contra hout
      exact habove i hi (by omega) hpass

theorem filter_eq_drop {l : List Entry} {passes : Entry → Bool} {p : Nat}
    (hp : ∀ i (hi : i < l.length), i < p ↔ passes l[i]) :
    l.filter (fun e ↦ !passes e) = l.drop p := by
  have hfront : (l.take p).filter (fun e ↦ !passes e) = [] := by
    rw [List.filter_eq_nil_iff]
    intro e he
    obtain ⟨i, hi, rfl⟩ := List.mem_take_iff_getElem.mp he
    simp [(hp i (by omega)).mp (by omega)]
  have hback : (l.drop p).filter (fun e ↦ !passes e) = l.drop p := by
    rw [List.filter_eq_self]
    intro e he
    obtain ⟨i, hi, rfl⟩ := List.mem_drop_iff_getElem.mp he
    have hfail := (hp (p + i) (by omega)).not.mp (by omega)
    simpa using hfail
  calc
    _ = (l.take p ++ l.drop p).filter (fun e ↦ !passes e) := by rw [List.take_append_drop]
    _ = l.drop p := by rw [List.filter_append, hfront, hback, List.nil_append]

/-- A look behind a cursor finds the oldest kept entries of larger ids. -/
theorem after_eq_take_filter {log : Log} (hsorted : log.entries.toList.Pairwise Entry.Before)
    (cursor : LogId) (count : Nat) :
    log.after cursor count =
      (log.entries.toList.filter fun e ↦ decide (cursor < e.id)).take count := by
  have hmono : ∀ i j (hi : i < log.entries.size) (hj : j < log.entries.size), i ≤ j →
      decide (log.entries[j].id ≤ cursor) → decide (log.entries[i].id ≤ cursor) := by
    intro i j hi hj hij hpass
    rw [decide_eq_true_eq] at hpass ⊢
    rcases Nat.lt_or_eq_of_le hij with hlt | rfl
    · have hbefore := List.pairwise_iff_getElem.mp hsorted i j (by simpa) (by simpa) hlt
      exact le_trans (le_of_lt hbefore) hpass
    · exact hpass
  have hboundary := lt_boundary_iff log.entries (fun e ↦ decide (e.id ≤ cursor)) hmono
    0 log.entries.size (Nat.le_refl _) (Nat.zero_le _)
    (fun i hi hlow ↦ absurd hlow (Nat.not_lt_zero i))
    (fun i hi hhigh ↦ absurd hi (Nat.not_lt.mpr hhigh))
  have hfilter : (log.entries.toList.filter fun e ↦ decide (cursor < e.id)) =
      log.entries.toList.filter fun e ↦ !decide (e.id ≤ cursor) := by
    apply List.filter_congr
    intro e _
    rw [← decide_not, decide_eq_decide, not_le]
  rw [hfilter, filter_eq_drop fun i hi ↦ hboundary i (by simpa using hi), after]
  simp

def added (log : Log) : List (UInt64 × Fields) → List Entry
  | [] => []
  | (now, fields) :: rest =>
    ⟨log.source.nextId now, fields⟩ :: (log.push now fields).added rest

theorem append_ids (log : Log) (batch : List (UInt64 × Fields)) :
    (log.append batch).1 = (log.added batch).map Entry.id := by
  induction batch generalizing log with
  | nil => rfl
  | cons head rest ih => simp only [append, added, List.map_cons, ih]

theorem toList_append (log : Log) (batch : List (UInt64 × Fields)) :
    (log.append batch).2.entries.toList = log.entries.toList ++ log.added batch := by
  induction batch generalizing log with
  | nil => simp [append, added]
  | cons head rest ih =>
    rw [append, added, ih]
    simp [push]

theorem added_fields (log : Log) (batch : List (UInt64 × Fields)) :
    (log.added batch).map Entry.fields = batch.map (·.2) := by
  induction batch generalizing log with
  | nil => rfl
  | cons head rest ih => simp only [added, List.map_cons, ih]

/-- A log keeps the end of its history, its newest id is that of the last entry of the
history, and the ids ascend. -/
structure Records (log : Log) (history : List Entry) : Prop where
  kept : log.entries.toList <:+ history
  newest : log.source.last = history.getLast?.map Entry.id
  ascending : history.Pairwise Entry.Before

variable {log : Log} {history : List Entry}

theorem records_empty : Records {} [] where
  kept := List.suffix_refl _
  newest := rfl
  ascending := List.Pairwise.nil

theorem Records.sorted (h : log.Records history) : log.entries.toList.Pairwise Entry.Before :=
  h.ascending.sublist h.kept.sublist

theorem Records.lt_nextId (h : log.Records history) (hroom : Entry.Roomy history)
    (now : UInt64) {e : Entry} (he : e ∈ history) : e.id < log.source.nextId now := by
  obtain ⟨last, hlast⟩ := Option.isSome_iff_exists.mp
    (List.getLast?_isSome.mpr (List.ne_nil_of_mem he))
  have hsource : log.source.last = some last.id := by rw [h.newest, hlast, Option.map_some]
  have hnext := hroom last (List.mem_of_getLast? hlast)
  calc
    e.id ≤ last.id := Entry.le_of_getLast? h.ascending hlast he
    _ < log.source.nextId now := IdSource.last_lt_nextId hsource hnext now

theorem newest_push (now : UInt64) (fields : Fields) :
    (log.push now fields).source.last =
      (history ++ [(⟨log.source.nextId now, fields⟩ : Entry)]).getLast?.map Entry.id := by
  simp [Log.push, IdSource.advance]

theorem Records.push (h : log.Records history) (hroom : Entry.Roomy history)
    (now : UInt64) (fields : Fields) :
    (log.push now fields).Records (history ++ [⟨log.source.nextId now, fields⟩]) where
  kept := by
    obtain ⟨dropped, rfl⟩ := h.kept
    exact ⟨dropped, by simp [Log.push]⟩
  newest := newest_push now fields
  ascending := by
    rw [List.pairwise_append]
    refine ⟨h.ascending, List.pairwise_singleton _ _, ?_⟩
    intro e he x hx
    rw [List.mem_singleton.mp hx]
    exact h.lt_nextId hroom now he

theorem Records.append (h : log.Records history) (batch : List (UInt64 × Fields))
    (hroom : Entry.Roomy (history ++ log.added batch)) :
    (log.append batch).2.Records (history ++ log.added batch) := by
  induction batch generalizing log history with
  | nil => simpa [Log.append, added] using h
  | cons head rest ih =>
    obtain ⟨now, fields⟩ := head
    have hsplit : history ++ log.added ((now, fields) :: rest) =
        (history ++ [⟨log.source.nextId now, fields⟩]) ++ (log.push now fields).added rest := by
      simp [added]
    have hbefore := hroom.of_prefix (List.prefix_append history _)
    rw [hsplit] at hroom ⊢
    exact ih (h.push hbefore now fields) hroom

/-- A new number is at most one larger than the last one, even if it wraps. -/
theorem seq_nextId_le_length (hnewest : log.source.last = history.getLast?.map Entry.id)
    (hnumbered : Entry.Numbered history) (now : UInt64) :
    (log.source.nextId now).seq.toNat ≤ history.length := by
  cases hlast : history.getLast? with
  | none =>
    rw [IdSource.seq_nextId_of_none (by rw [hnewest, hlast]; rfl)]
    exact Nat.zero_le _
  | some last =>
    have hnumber := hnumbered last (List.mem_of_getLast? hlast)
    have hnext := IdSource.seq_nextId_le (by rw [hnewest, hlast]; rfl) now
    omega

theorem numbered_added (hnewest : log.source.last = history.getLast?.map Entry.id)
    (hnumbered : Entry.Numbered history) (batch : List (UInt64 × Fields)) :
    Entry.Numbered (history ++ log.added batch) := by
  induction batch generalizing log history with
  | nil => simpa [added] using hnumbered
  | cons head rest ih =>
    obtain ⟨now, fields⟩ := head
    have hsplit : history ++ log.added ((now, fields) :: rest) =
        (history ++ [⟨log.source.nextId now, fields⟩]) ++ (log.push now fields).added rest := by
      simp [added]
    rw [hsplit]
    refine ih (newest_push now fields) ?_
    intro e he
    rw [List.length_append, List.length_singleton, Nat.lt_succ_iff]
    rcases List.mem_append.mp he with hold | hnew
    · exact le_of_lt (hnumbered e hold)
    · rw [List.mem_singleton.mp hnew]
      exact seq_nextId_le_length hnewest hnumbered now

theorem trim_entries (log : Log) (least : LogId) :
    (log.trim least).entries.toList = log.entries.toList.drop (log.countBefore least) := by
  rw [trim, Array.toList_extract, List.extract_eq_take_drop]
  apply List.take_of_length_le
  rw [List.length_drop, Array.length_toList]

/-- Trimming keeps what does not come before the given id. -/
theorem trim_entries_eq_filter {log : Log} (hsorted : log.entries.toList.Pairwise Entry.Before)
    (least : LogId) :
    (log.trim least).entries.toList = log.entries.toList.filter fun e ↦ decide (least ≤ e.id) := by
  have hcount : ∀ i (hi : i < log.entries.toList.length),
      i < log.countBefore least ↔ decide (log.entries.toList[i].id < least) := by
    intro i hi
    rw [countBefore, decide_eq_true_eq]
    constructor
    · intro hfront
      simpa using Array.not_of_lt_findIdx hfront
    · intro hbefore
      refine Array.lt_findIdx_of_not (by simpa using hi) fun j hj ↦ ?_
      have hle : log.entries.toList[j].id ≤ log.entries.toList[i].id := by
        rcases Nat.lt_or_eq_of_le hj with hlt | rfl
        · exact le_of_lt (List.pairwise_iff_getElem.mp hsorted j i (by omega) hi hlt)
        · exact le_refl _
      simpa using lt_of_le_of_lt hle hbefore
  have hdrop : log.entries.toList.filter (fun e ↦ !decide (e.id < least)) =
      log.entries.toList.drop (log.countBefore least) := filter_eq_drop hcount
  rw [trim_entries, ← hdrop]
  apply List.filter_congr
  intro e _
  rw [← decide_not, decide_eq_decide, not_lt]

/-- So the difference in size is the number of entries before the given id. -/
theorem size_sub_size_trim {log : Log} (hsorted : log.entries.toList.Pairwise Entry.Before)
    (least : LogId) :
    log.entries.size - (log.trim least).entries.size =
      log.entries.toList.countP fun e ↦ decide (e.id < least) := by
  have hkept : (log.trim least).entries.size =
      log.entries.toList.countP fun e ↦ ¬ decide (e.id < least) := by
    rw [← Array.length_toList, trim_entries_eq_filter hsorted, ← List.countP_eq_length_filter]
    apply List.countP_congr
    intro e _
    simp
  have hsplit := List.length_eq_countP_add_countP (fun e : Entry ↦ decide (e.id < least))
    (l := log.entries.toList)
  rw [Array.length_toList] at hsplit
  omega

theorem Records.trim (h : log.Records history) (least : LogId) :
    (log.trim least).Records history where
  kept := by
    rw [trim_entries]
    exact (List.drop_suffix _ _).trans h.kept
  newest := h.newest
  ascending := h.ascending

end Log

end TicketPool

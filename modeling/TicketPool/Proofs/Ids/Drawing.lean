import Mathlib.Data.List.Basic
import TicketPool.Proofs.Ids.Order

/-!
# Ids drawn one after another

The millisecond of an id is the latest reading of the clock so far, and its number counts the
readings since that one came for the first time.  So ids grow whatever the clock does, and the
number of readings bounds all numbers.
-/

namespace TicketPool

namespace LogId

theorem hasShape_text {id : LogId} (h : (Digit.numeral id.millis.toNat).length = 13) :
    hasShape id.text = true := by
  have hdecimal : ∀ n, (Digit.numeral n).all DecimalDigit.isDecimalDigit = true := fun n ↦
    List.all_eq_true.mpr fun c hc ↦
      DecimalDigit.isDecimalDigit_of_isDigit (Digit.isDigit_of_mem_numeral hc)
  have htake : id.text.toList.take 13 = Digit.numeral id.millis.toNat := by
    rw [text, String.toList_ofList, chars, ← h, List.take_left]
  have hdrop : id.text.toList.drop 13 = '-' :: Digit.numeral id.seq.toNat := by
    rw [text, String.toList_ofList, chars, ← h, List.drop_left]
  simp [hasShape, htake, hdrop, hdecimal, Digit.numeral_ne_nil]

/-- What an id says of the readings up to its own: its millisecond is the latest of them, and its
number tells how many have come since that one came first. -/
structure Counts (seen : List UInt64) (id : LogId) : Prop where
  mem : id.millis ∈ seen
  le : ∀ now ∈ seen, now ≤ id.millis
  count : id.seq.toNat + seen.idxOf id.millis + 1 = seen.length

namespace Counts

variable {seen : List UInt64} {id : LogId}

theorem first (now : UInt64) : Counts [now] (ofMillis now) where
  mem := List.mem_singleton_self now
  le := fun _ h ↦ UInt64.le_of_eq (List.mem_singleton.mp h)
  count := by simp [ofMillis]

/-- The clock stands still or runs back. -/
theorem stay (h : Counts seen id) {now : UInt64} (hback : now ≤ id.millis)
    (hroom : seen.length < 2 ^ 64) : Counts (seen ++ [now]) ⟨id.millis, id.seq + 1⟩ where
  mem := List.mem_append_left _ h.mem
  le := by
    intro other hother
    rcases List.mem_append.mp hother with hold | hnew
    · exact h.le other hold
    · rwa [List.mem_singleton.mp hnew]
  count := by
    have hcount := h.count
    have hnext : (id.seq + 1).toNat = id.seq.toNat + 1 := by
      rw [UInt64.toNat_add, UInt64.toNat_one, Nat.mod_eq_of_lt (by omega)]
    rw [hnext, List.idxOf_append_of_mem h.mem, List.length_append, List.length_singleton]
    omega

/-- The clock runs on. -/
theorem move (h : Counts seen id) {now : UInt64} (hforward : id.millis < now) :
    Counts (seen ++ [now]) (ofMillis now) where
  mem := by simp [ofMillis]
  le := by
    intro other hother
    rcases List.mem_append.mp hother with hold | hnew
    · exact UInt64.le_of_lt (UInt64.lt_of_le_of_lt (h.le other hold) hforward)
    · exact UInt64.le_of_eq (List.mem_singleton.mp hnew)
  count := by
    have hfresh : now ∉ seen := fun hmem ↦ UInt64.not_lt.mpr (h.le now hmem) hforward
    simp [ofMillis, List.idxOf_append_of_notMem hfresh]

/-- A later id either has a later millisecond or counts on from the same reading. -/
theorem lt_of_append (h : Counts seen id) {later : List UInt64} {next : LogId}
    (hnext : Counts (seen ++ later) next) (hlater : later ≠ []) : id < next := by
  have hle : id.millis ≤ next.millis := hnext.le _ (List.mem_append_left _ h.mem)
  rcases UInt64.lt_or_eq_of_le hle with hlt | heq
  · exact .inl hlt
  · have hcount := h.count
    have hcount' := hnext.count
    have hmore := List.length_pos_iff.mpr hlater
    rw [← heq, List.idxOf_append_of_mem h.mem, List.length_append] at hcount'
    rw [lt_iff_toNat, heq]
    exact .inr ⟨rfl, by omega⟩

end Counts

end LogId

namespace IdSource

/-- A source that ids for these readings have been drawn from. -/
structure Drawn (seen : List UInt64) (source : IdSource) : Prop where
  fresh : source.last = none → seen = []
  counts : ∀ last, source.last = some last → last.Counts seen

variable {seen : List UInt64} {source : IdSource}

theorem drawn_new : Drawn [] {} where
  fresh := fun _ ↦ rfl
  counts := fun _ h ↦ by cases h

theorem Drawn.counts_nextId (h : Drawn seen source) (now : UInt64) (hroom : seen.length < 2 ^ 64) :
    (source.nextId now).Counts (seen ++ [now]) := by
  cases hlast : source.last with
  | none =>
    have hnext : source.nextId now = LogId.ofMillis now := by simp only [nextId, hlast]
    rw [hnext, h.fresh hlast]
    exact LogId.Counts.first now
  | some last =>
    have hcounts := h.counts last hlast
    rw [nextId_of_last hlast]
    split_ifs with hback
    · exact hcounts.stay hback hroom
    · exact hcounts.move (UInt64.not_le.mp hback)

theorem Drawn.advance (h : Drawn seen source) (now : UInt64) (hroom : seen.length < 2 ^ 64) :
    Drawn (seen ++ [now]) (source.advance now) where
  fresh := fun hnone ↦ by cases hnone
  counts := by
    intro last hlast
    cases hlast
    exact h.counts_nextId now hroom

theorem length_draw (source : IdSource) (readings : List UInt64) :
    (source.draw readings).1.length = readings.length := by
  induction readings generalizing source with
  | nil => rfl
  | cons now later ih => simp only [draw, List.length_cons, ih]

theorem draw_take (source : IdSource) (readings : List UInt64) (k : Nat) :
    (source.draw (readings.take k)).1 = (source.draw readings).1.take k := by
  induction readings generalizing source k with
  | nil => simp [draw]
  | cons now later ih =>
    cases k with
    | zero => simp [draw]
    | succ k => simp only [draw, List.take_succ_cons, ih]

theorem last_draw (source : IdSource) (readings : List UInt64) :
    (source.draw readings).2.last = (source.draw readings).1.getLast?.or source.last := by
  induction readings generalizing source with
  | nil => rfl
  | cons now later ih =>
    simp only [draw, ih, List.getLast?_cons]
    cases ((source.advance now).draw later).1.getLast? <;> simp [IdSource.advance]

theorem Drawn.counts_getElem? (h : Drawn seen source) (readings : List UInt64)
    (hroom : seen.length + readings.length < 2 ^ 64) {k : Nat} {id : LogId}
    (hid : (source.draw readings).1[k]? = some id) :
    id.Counts (seen ++ readings.take (k + 1)) := by
  induction readings generalizing source seen k with
  | nil => simp [draw] at hid
  | cons now later ih =>
    rw [List.length_cons] at hroom
    have hnow : seen.length < 2 ^ 64 := by omega
    cases k with
    | zero =>
      cases hid
      exact h.counts_nextId now hnow
    | succ k =>
      have hrest : (seen ++ [now]).length + later.length < 2 ^ 64 := by
        rw [List.length_append, List.length_singleton]
        omega
      have hcounts := ih (h.advance now hnow) hrest hid
      simpa using hcounts

theorem pairwise_draw {readings : List UInt64} (hfew : readings.length < 2 ^ 64) :
    (draw {} readings).1.Pairwise (· < ·) := by
  rw [List.pairwise_iff_getElem]
  intro i j hi hj hij
  have hcounts : ∀ k (hk : k < (draw {} readings).1.length),
      (draw {} readings).1[k].Counts (readings.take (k + 1)) := fun k hk ↦
    drawn_new.counts_getElem? readings (by simpa using hfew) (List.getElem?_eq_getElem hk)
  have hsplit : readings.take (j + 1) =
      readings.take (i + 1) ++ (readings.drop (i + 1)).take (j - i) := by
    rw [← List.take_add]
    congr 1
    omega
  have hmore : (readings.drop (i + 1)).take (j - i) ≠ [] := by
    rw [length_draw] at hj
    rw [← List.length_pos_iff, List.length_take, List.length_drop]
    omega
  exact (hcounts i hi).lt_of_append (hsplit ▸ hcounts j hj) hmore

theorem greatest_of_getLast? {ids : List LogId} (h : ids.Pairwise (· < ·)) {last : LogId}
    (hlast : ids.getLast? = some last) : last ∈ ids ∧ ∀ id ∈ ids, id ≤ last := by
  obtain ⟨front, rfl⟩ := List.getLast?_eq_some_iff.mp hlast
  have hbefore := (List.pairwise_append.mp h).2.2
  refine ⟨List.mem_of_getLast? hlast, ?_⟩
  intro id hid
  rcases List.mem_append.mp hid with hfront | hend
  · exact le_of_lt (hbefore id hfront last (List.mem_singleton_self last))
  · exact le_of_eq (List.mem_singleton.mp hend)

theorem getLast?_eq_some_iff_greatest {ids : List LogId} (h : ids.Pairwise (· < ·)) {last : LogId} :
    ids.getLast? = some last ↔ last ∈ ids ∧ ∀ id ∈ ids, id ≤ last := by
  constructor
  · exact greatest_of_getLast? h
  · rintro ⟨hmem, hgreatest⟩
    obtain ⟨final, hfinal⟩ := Option.isSome_iff_exists.mp
      (List.getLast?_isSome.mpr (List.ne_nil_of_mem hmem))
    obtain ⟨hfinal_mem, hfinal_greatest⟩ := greatest_of_getLast? h hfinal
    rw [hfinal, le_antisymm (hgreatest final hfinal_mem) (hfinal_greatest last hmem)]

/-- The closed form of the ids that a new source gives out.  They grow, their numbers never run
over, the source remembers the largest of them, and with readings of thirteen digits they have the
shape of an id. -/
theorem draw_closed_form (readings : List UInt64) (hfew : readings.length < 2 ^ 64) :
    (draw {} readings).1.length = readings.length ∧
      let ids := (draw {} readings).1
      (∀ k id, ids[k]? = some id →
        let seen := readings.take (k + 1)
        id.millis ∈ seen ∧ (∀ now ∈ seen, now ≤ id.millis) ∧
          id.seq.toNat + seen.idxOf id.millis = k) ∧
      ids.Pairwise (· < ·) ∧
      (∀ id ∈ ids, id.seq.toNat + 1 < 2 ^ 64) ∧
      (∀ k last, (draw {} (readings.take k)).2.last = some last ↔
        last ∈ ids.take k ∧ ∀ id ∈ ids.take k, id ≤ last) ∧
      ((∀ now ∈ readings, (Digit.numeral now.toNat).length = 13) → ∀ id ∈ ids,
        LogId.hasShape id.text = true ∧ LogId.ofText? id.text = some id) := by
  refine ⟨length_draw {} readings, ?_⟩
  intro ids
  have hgrow : ids.Pairwise (· < ·) := pairwise_draw hfew
  have hcounts : ∀ k (id : LogId), ids[k]? = some id → id.Counts (readings.take (k + 1)) :=
    fun k id ↦ drawn_new.counts_getElem? readings (by simpa using hfew)
  refine ⟨?_, hgrow, ?_, ?_, ?_⟩
  · intro k id hid seen
    have hk := (List.getElem?_eq_some_iff.mp hid).1
    obtain ⟨hmem, hle, hcount⟩ := hcounts k id hid
    rw [length_draw] at hk
    rw [List.length_take_of_le hk] at hcount
    exact ⟨hmem, hle, Nat.succ.inj hcount⟩
  · intro id hid
    obtain ⟨k, hk⟩ := List.getElem?_of_mem hid
    have hcount := (hcounts k id hk).count
    have hshort := List.length_take_le' (k + 1) readings
    omega
  · intro k last
    rw [last_draw, draw_take, Option.or_none]
    exact getLast?_eq_some_iff_greatest (hgrow.sublist (List.take_sublist _ _))
  · intro hthirteen id hid
    obtain ⟨k, hk⟩ := List.getElem?_of_mem hid
    have hmillis := List.mem_of_mem_take (hcounts k id hk).mem
    exact ⟨LogId.hasShape_text (hthirteen _ hmillis), LogId.ofText?_text id⟩

/-- The clock runs on, back, on to the same reading again, and on. -/
theorem restless_clock :
    let readings : List UInt64 :=
      [1700000000005, 1700000000009, 1700000000003, 1700000000009, 1700000000010]
    let ids := (draw {} readings).1
    readings.length < 2 ^ 64 ∧ (∀ now ∈ readings, (Digit.numeral now.toNat).length = 13) ∧
      ids[3]? = some ⟨1700000000009, 2⟩ ∧
      (2 + (readings.take 4).idxOf 1700000000009 = 3) ∧
      ids.Pairwise (· < ·) ∧ ∀ id ∈ ids, LogId.ofText? id.text = some id := by
  intro readings ids
  have hfew : readings.length < 2 ^ 64 := by decide
  have hlengths : (readings.map fun now ↦ (Digit.numeral now.toNat).length) =
      List.replicate 5 13 := by decide +kernel
  have hthirteen : ∀ now ∈ readings, (Digit.numeral now.toNat).length = 13 := fun now hnow ↦
    List.eq_of_mem_replicate (hlengths ▸ List.mem_map_of_mem hnow)
  have hid : ids[3]? = some ⟨1700000000009, 2⟩ := by decide +kernel
  obtain ⟨-, hform, hgrow, -, -, hshape⟩ := draw_closed_form readings hfew
  exact ⟨hfew, hthirteen, hid, (hform 3 _ hid).2.2, hgrow,
    fun id hmem ↦ (hshape hthirteen id hmem).2⟩

end IdSource

end TicketPool

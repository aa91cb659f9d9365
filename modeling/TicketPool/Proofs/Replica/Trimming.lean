import TicketPool.Proofs.Replica.CatchUp
import TicketPool.Proofs.Store.Sweeping

/-!
# Trims and sweeps

A batch is followed by a trim of the log, which compares ids with the first one of a millisecond.
A sweep reads the millisecond of a key from its text and compares ages.  Still the trim drops just
the entries whose ids are aged for a sweep at the same time.
-/

namespace TicketPool

theorem Log.le_millis_of_added {log : Log} {batch : List (UInt64 × Fields)} {i : Nat}
    {now : UInt64} {fields : Fields} {e : Entry} (hbatch : batch[i]? = some (now, fields))
    (he : (log.added batch)[i]? = some e) : now ≤ e.id.millis := by
  induction batch generalizing log i with
  | nil => simp at hbatch
  | cons head rest ih =>
    cases i with
    | zero =>
      cases hbatch
      cases he
      exact log.source.le_millis_nextId now
    | succ i => exact ih hbatch he

namespace Replica

variable {server : LogServer} {readings : Nat → UInt64} {ttl : Span} {now : UInt64} {id : LogId}

theorem trimPoint_le_iff_not_isAged :
    trimPoint ttl now ≤ id ↔ isAged now ttl.millis id.text = false := by
  rw [trimPoint_le_iff, isAged, LogId.creationMillis?_text, decide_eq_false_iff_not,
    UInt64.not_lt]

/-- The server when a batch has been written and the log is still to be trimmed. -/
def written (server : LogServer) (readings : Nat → UInt64) (updates : List Update) : LogServer :=
  (commit (LogServer.backend readings) (entries updates) server).2

theorem send_snd_eq_trim (updates : List Update) :
    (send (LogServer.backend readings) ttl now updates server).2 =
      ((written server readings updates).trim (trimPoint ttl now)).2 :=
  rfl

theorem written_of_live (hlive : server.mode = .live true) (updates : List Update) :
    (written server readings updates).mode = .live true ∧
      (written server readings updates).log =
        (server.log.append (LogServer.stamped readings (entries updates))).2 := by
  unfold written commit
  by_cases hnone : entries updates = []
  · rw [if_pos hnone, hnone]
    exact ⟨hlive, rfl⟩
  · rw [if_neg hnone]
    simp only [LogServer.backend, LogServer.append, hlive]
    split_ifs <;> exact ⟨rfl, rfl⟩

theorem entries_send (hlive : server.mode = .live true) (updates : List Update)
    (hsorted : (written server readings updates).log.entries.toList.Pairwise Entry.Before) :
    (send (LogServer.backend readings) ttl now updates server).2.log.entries.toList =
      (written server readings updates).log.entries.toList.filter fun e ↦
        !isAged now ttl.millis e.id.text := by
  rw [send_snd_eq_trim, LogServer.trim]
  simp only [(written_of_live hlive updates).1]
  rw [Log.trim_entries_eq_filter hsorted]
  apply List.filter_congr
  intro e _
  rw [Bool.eq_iff_iff, decide_eq_true_eq, Bool.not_eq_true']
  exact trimPoint_le_iff_not_isAged

/-- Each writable update of a batch has its entry behind those that were there before. -/
theorem exists_written (hlive : server.mode = .live true) {updates : List Update} {i : Nat}
    {fields : Fields} (hfields : (entries updates)[i]? = some fields) :
    ∃ e, (written server readings updates).log.entries.toList[server.log.entries.size + i]? =
      some e ∧ e.fields = fields ∧ readings i ≤ e.id.millis := by
  have hstamped : (LogServer.stamped readings (entries updates))[i]? =
      some (readings i, fields) := by
    rw [LogServer.stamped, List.getElem?_mapIdx, hfields, Option.map_some]
  have hcolumn := congrArg (·[i]?)
    (Log.added_fields server.log (LogServer.stamped readings (entries updates)))
  simp only [List.getElem?_map, hstamped, Option.map_some, Option.map_eq_some_iff] at hcolumn
  obtain ⟨e, he, hsame⟩ := hcolumn
  refine ⟨e, ?_, hsame, Log.le_millis_of_added hstamped he⟩
  rw [(written_of_live hlive updates).2, Log.toList_append, ← Array.length_toList,
    List.getElem?_append_right (Nat.le_add_right _ _), Nat.add_sub_cancel_left, he]

theorem isAged_text_iff (id : LogId) : isAged now ttl.millis id.text = true ↔
    ∃ born, LogId.creationMillis? id.text = some born ∧
      min (ttl.secs.toNat * 1000 + ttl.nanos / 1000000) (2 ^ 64 - 1) <
        now.toNat - born.toNat := by
  simp only [isAged_iff, UInt64.lt_iff_toNat_lt, toNat_monus, Span.toNat_millis]
  rfl

/-- The trim behind a batch drops just the entries that a sweep at the same time, with the same
limit, finds aged.  It drops nothing if the limit reaches back to the first millisecond, and nothing
of the batch unless the clock has moved on by more than the limit in between. -/
theorem send_trims_aged (server : LogServer) (hlive : server.mode = .live true)
    (readings : Nat → UInt64) (ttl : Span) (now : UInt64) (updates : List Update)
    (hsorted : (written server readings updates).log.entries.toList.Pairwise
      fun a b ↦ a.id < b.id) :
    let found := (written server readings updates).log.entries.toList
    let kept := (send (LogServer.backend readings) ttl now updates server).2.log.entries.toList
    let limit := ttl.secs.toNat * 1000 + ttl.nanos / 1000000
    kept = found.filter (fun e ↦ !isAged now ttl.millis e.id.text) ∧
      (∀ id : LogId, isAged now ttl.millis id.text = true ↔
        ∃ born, LogId.creationMillis? id.text = some born ∧
          min limit (2 ^ 64 - 1) < now.toNat - born.toNat) ∧
      (∀ e ∈ found, ∀ (s : Store) (rule : SweepRule),
        rule.now.millis = now → rule.ticketTtl = ttl → s.isInactive e.id.text = true →
          ((s.sweep rule).isInactive e.id.text = true ↔ e ∈ kept)) ∧
      (now.toNat ≤ limit → kept = found) ∧
      ∀ (i : Nat) (fields : Fields), (entries updates)[i]? = some fields →
        now.toNat ≤ (readings i).toNat + limit →
          ∃ e ∈ kept, e.fields = fields ∧ found[server.log.entries.size + i]? = some e := by
  intro found kept limit
  have hkept : kept = found.filter fun e ↦ !isAged now ttl.millis e.id.text :=
    entries_send hlive updates hsorted
  have hyoung : ∀ {id : LogId}, now.toNat ≤ id.millis.toNat + limit →
      isAged now ttl.millis id.text = false := by
    intro id hlate
    rw [← Bool.not_eq_true, isAged_text_iff, LogId.creationMillis?_text]
    rintro ⟨born, hborn, hold⟩
    cases hborn
    have hnow := now.toNat_lt
    omega
  refine ⟨hkept, isAged_text_iff, ?_, ?_, ?_⟩
  · rintro e he s rule rfl rfl hmarked
    rw [Store.isInactive_sweep, hkept, List.mem_filter]
    simp only [hmarked, he, true_and]
  · intro hlong
    rw [hkept, List.filter_eq_self]
    intro e _
    rw [hyoung (hlong.trans (Nat.le_add_left _ _)), Bool.not_false]
  · intro i fields hfields hmoved
    obtain ⟨e, he, hsame, hborn⟩ := exists_written hlive hfields
    rw [UInt64.le_iff_toNat_le] at hborn
    refine ⟨e, ?_, hsame, he⟩
    rw [hkept, List.mem_filter, hyoung (hmoved.trans (Nat.add_le_add_right hborn _))]
    exact ⟨List.mem_of_getElem? he, rfl⟩

/-- A log with an entry that is more than a second old at 2600, and one that is just a second
old. -/
def secondsOld : LogServer where
  log := {
    entries := #[⟨⟨1599, 7⟩, [("activate", "a")]⟩, ⟨⟨1600, 0⟩, [("activate", "b")]⟩]
    source := ⟨some ⟨1600, 0⟩⟩ }
  mode := .live true

theorem secondsOld_trimmed :
    let found := (written secondsOld (fun _ ↦ 1500) [.activate "c"]).log.entries.toList
    let final := (send (LogServer.backend fun _ ↦ 1500) (.ofMillis 1000) 2600 [.activate "c"]
      secondsOld).2
    found.Pairwise (fun a b ↦ a.id < b.id) ∧ found.length = 3 ∧
      final.log.entries.toList =
        found.filter (fun e ↦ !isAged 2600 (Span.ofMillis 1000).millis e.id.text) ∧
      (final.log.entries.toList.map fun e ↦ e.id.text) = ["1600-0", "1600-1"] := by
  intro found final
  have hsorted : found.Pairwise fun a b ↦ a.id < b.id := by decide +kernel
  obtain ⟨hkept, -⟩ := send_trims_aged secondsOld rfl (fun _ ↦ 1500) (.ofMillis 1000) 2600
    [.activate "c"] hsorted
  exact ⟨hsorted, by decide +kernel, hkept, by decide +kernel⟩

end Replica

end TicketPool

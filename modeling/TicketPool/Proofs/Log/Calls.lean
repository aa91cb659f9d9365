import Mathlib.Algebra.GroupWithZero.Nat
import Mathlib.Data.List.Induction
import TicketPool.Proofs.Log.Chronicle

/-!
# Logs under appends and trims

Whatever calls have added entries to a log and trimmed it, with whatever readings of the clock, the
kept entries ascend and the last id stands at or behind them.  So looking behind a cursor by halves
and trimming from the front are plain filters of the kept entries.
-/

namespace TicketPool

/-- A call that changes what a log keeps. -/
inductive LogCall where
  | append (readings : Nat → UInt64) (batch : List Fields)
  | trim (least : LogId)

/-- How many entries a call adds. -/
def LogCall.size : LogCall → Nat
  | append _ batch => batch.length
  | trim _ => 0

namespace LogServer

def call (server : LogServer) : LogCall → LogServer
  | .append readings batch => (server.append readings batch).2
  | .trim least => (server.trim least).2

/-- A server in reach, after calls on an empty log. -/
def called (calls : List LogCall) : LogServer :=
  calls.foldl call { mode := .live true }

theorem mode_call (server : LogServer) (op : LogCall) : (server.call op).mode = server.mode := by
  cases op with
  | append readings batch =>
    simp only [call, append]
    split
    · rfl
    · rfl
    · split <;> rfl
  | trim least =>
    simp only [call, trim]
    split
    · rfl
    · rfl
    · split <;> rfl

theorem mode_called (calls : List LogCall) : (called calls).mode = .live true := by
  rw [called]
  exact List.foldlRecOn (motive := fun server : LogServer ↦ server.mode = .live true) calls call rfl
    fun server hmode op _ ↦ (server.mode_call op).trans hmode

end LogServer

namespace Chronicle

def call (c : Chronicle) : LogCall → Chronicle
  | .append readings batch => (c.append readings batch).2
  | .trim least => (c.trim least).2

def called (calls : List LogCall) : Chronicle :=
  calls.foldl call start

theorem server_call (c : Chronicle) (op : LogCall) : (c.call op).server = c.server.call op := by
  cases op <;> rfl

theorem server_called (calls : List LogCall) :
    (called calls).server = LogServer.called calls := by
  have hsame : calls.foldl LogServer.call start.server = (calls.foldl call start).server :=
    List.foldl_hom server fun c op ↦ (server_call c op).symm
  exact hsame.symm

/-- The record of a server in reach that has been given `size` entries so far. -/
structure Kept (size : Nat) (c : Chronicle) : Prop where
  available : c.server.mode = .live true
  faithful : c.Faithful
  numbered : Entry.Numbered c.history
  length : c.history.length = size

variable {c : Chronicle} {size : Nat} {calls : List LogCall}

theorem kept_start : start.Kept 0 where
  available := rfl
  faithful := faithful_start
  numbered := fun _ he ↦ absurd he List.not_mem_nil
  length := rfl

theorem Kept.call (h : c.Kept size) (op : LogCall) (hroom : size + op.size < 2 ^ 64) :
    (c.call op).Kept (size + op.size) := by
  have hmode : (c.call op).server.mode = .live true := by
    rw [server_call, LogServer.mode_call, h.available]
  cases op with
  | append readings batch =>
    have hnumbered : Entry.Numbered (c.append readings batch).2.history :=
      h.faithful.numbered_append h.numbered
    have hlength : (c.append readings batch).2.history.length = size + batch.length := by
      have hnews : (c.news readings batch).length = batch.length := by
        rw [← List.length_map, news_fields]
      rw [append_of_available h.available, List.length_append, hnews, h.length]
    exact ⟨hmode, h.faithful.append (hnumbered.roomy (hlength ▸ hroom)), hnumbered, hlength⟩
  | trim least =>
    have hhistory := (trim_of_live h.available least).2.1
    exact ⟨hmode, h.faithful.trim least, hhistory ▸ h.numbered, hhistory ▸ h.length⟩

theorem kept_called (hfew : (calls.map LogCall.size).sum < 2 ^ 64) :
    (called calls).Kept (calls.map LogCall.size).sum := by
  induction calls using List.reverseRecOn with
  | nil => exact kept_start
  | append_singleton calls op ih =>
    have hsum : ((calls ++ [op]).map LogCall.size).sum =
        (calls.map LogCall.size).sum + op.size := by simp
    have hstep : called (calls ++ [op]) = (called calls).call op := by
      rw [called, List.foldl_append]
      rfl
    rw [hsum] at hfew ⊢
    rw [hstep]
    exact (ih (by omega)).call op hfew

theorem history_call (c : Chronicle) (op : LogCall) : c.history <+: (c.call op).history := by
  cases op with
  | append readings batch => exact history_append
  | trim least => exact List.prefix_refl _

theorem history_called {earlier : List LogCall} (h : earlier <+: calls) :
    (called earlier).history <+: (called calls).history := by
  obtain ⟨later, rfl⟩ := h
  have hgrows : ∀ c op, (id c).history <+: (id (call c op)).history := history_call
  rw [called, called, List.foldl_append]
  exact history_foldl hgrows _ later

theorem Faithful.le_lastId (h : c.Faithful) {e : Entry} (he : e ∈ c.history) :
    ∃ last, c.server.log.lastId = some last ∧ e.id ≤ last := by
  obtain ⟨newest, hnewest⟩ := Option.isSome_iff_exists.mp
    (List.getLast?_isSome.mpr (List.ne_nil_of_mem he))
  refine ⟨newest.id, ?_, Entry.le_of_getLast? h.records.ascending hnewest he⟩
  rw [Log.lastId, h.records.newest, hnewest, Option.map_some]

end Chronicle

namespace LogServer

variable {calls : List LogCall}

theorem sorted_called (hfew : (calls.map LogCall.size).sum < 2 ^ 64) :
    (called calls).log.entries.toList.Pairwise Entry.Before := by
  rw [← Chronicle.server_called]
  exact (Chronicle.kept_called hfew).faithful.records.sorted

/-- After any calls, the log is the plain list of its entries.  They ascend, and none lies behind
the last id, which has never gone back. -/
theorem called_as_list (calls : List LogCall) (hfew : (calls.map LogCall.size).sum < 2 ^ 64) :
    let server := called calls
    let kept := server.log.entries.toList
    kept.Pairwise (fun a b ↦ a.id < b.id) ∧
      (∀ e ∈ kept, ∃ last, server.log.lastId = some last ∧ e.id ≤ last) ∧
      (∀ cursor count, server.log.after cursor count =
        (kept.filter fun e ↦ decide (cursor < e.id)).take count) ∧
      (∀ least,
        (server.trim least).1 = .ok (kept.countP fun e ↦ decide (e.id < least)) ∧
        (server.trim least).2.log.entries.toList = kept.filter fun e ↦ decide (least ≤ e.id)) ∧
      ∀ earlier id, earlier <+: calls → (called earlier).log.lastId = some id →
        ∃ last, server.log.lastId = some last ∧ id ≤ last := by
  intro server kept
  have hserver : server = (Chronicle.called calls).server := (Chronicle.server_called calls).symm
  have hkept := Chronicle.kept_called hfew
  have hrecords : server.log.Records (Chronicle.called calls).history :=
    hserver ▸ hkept.faithful.records
  have hlive : server.mode = .live true := mode_called calls
  refine ⟨hrecords.sorted, ?_, ?_, ?_, ?_⟩
  · intro e he
    rw [hserver]
    exact hkept.faithful.le_lastId (hrecords.kept.subset he)
  · exact Log.after_eq_take_filter hrecords.sorted
  · intro least
    simp only [trim, hlive, Log.size_sub_size_trim hrecords.sorted,
      Log.trim_entries_eq_filter hrecords.sorted]
    exact ⟨rfl, rfl⟩
  · intro earlier id hearlier hid
    have hgrown := Chronicle.history_called hearlier
    have hfew' : (earlier.map LogCall.size).sum < 2 ^ 64 := by
      obtain ⟨later, rfl⟩ := hearlier
      rw [List.map_append, List.sum_append] at hfew
      omega
    have hrecords' := (Chronicle.kept_called hfew').faithful.records
    rw [← Chronicle.server_called, Log.lastId, hrecords'.newest, Option.map_eq_some_iff] at hid
    obtain ⟨newest, hnewest, rfl⟩ := hid
    rw [hserver]
    exact hkept.faithful.le_lastId (hgrown.subset (List.mem_of_getLast? hnewest))

/-- A log is trimmed to nothing while the clock runs back, and goes on from its last id. -/
theorem emptied_as_list :
    let first := [.append (fun _ ↦ 5) [[("activate", "a")], [("activate", "b")]], .trim ⟨9, 0⟩]
    let calls : List LogCall := first ++ [.append (fun _ ↦ 3) [[("activate", "c")]]]
    (calls.map LogCall.size).sum < 2 ^ 64 ∧ (called first).log.entries.toList = [] ∧
      (called first).log.lastId = some ⟨5, 1⟩ ∧
      (called calls).log.entries.toList = [⟨⟨5, 2⟩, [("activate", "c")]⟩] ∧
      (∀ e ∈ (called calls).log.entries.toList,
        ∃ last, (called calls).log.lastId = some last ∧ e.id ≤ last) ∧
      ((called calls).trim ⟨5, 3⟩).1 = .ok 1 := by
  intro first calls
  have hfew : (calls.map LogCall.size).sum < 2 ^ 64 := by decide
  obtain ⟨-, hlast, -, htrim, -⟩ := called_as_list calls hfew
  refine ⟨hfew, by decide +kernel, by decide +kernel, by decide +kernel, hlast, ?_⟩
  rw [(htrim ⟨5, 3⟩).1]
  decide +kernel

end LogServer

end TicketPool

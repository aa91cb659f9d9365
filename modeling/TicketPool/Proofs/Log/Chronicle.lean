import TicketPool.Proofs.Log.Retention
import TicketPool.Replica

/-!
# Chronicles

A chronicle is a live server together with the history of its log.  It acts as the server
does, and what an append leaves behind the entries that stood there goes on record.
-/

namespace TicketPool

namespace Replica

variable {σ τ : Type} (backend : Backend σ) (image : Backend τ) (view : σ → τ)

theorem commit_map
    (happend : ∀ batch s, (backend.append batch s).map id view = image.append batch (view s))
    (entries : List Fields) (s : σ) :
    (commit backend entries s).map id view = commit image entries (view s) := by
  unfold commit
  by_cases hnone : entries = []
  · rw [if_pos hnone, if_pos hnone]
    rfl
  · rw [if_neg hnone, if_neg hnone, ← happend]
    obtain ⟨result, t⟩ := backend.append entries s
    cases result with
    | error e => rfl
    | ok ids => by_cases hcount : ids.length = entries.length <;> simp [hcount]

/-- What is sent and answered can be followed in any view of the state that appends and
trims respect. -/
theorem send_map
    (happend : ∀ batch s, (backend.append batch s).map id view = image.append batch (view s))
    (htrim : ∀ least s, (backend.trim least s).map id view = image.trim least (view s))
    (ticketTtl : Span) (now : UInt64) (updates : List Update) (s : σ) :
    (send backend ticketTtl now updates s).map id view =
      send image ticketTtl now updates (view s) := by
  unfold send
  rw [← commit_map backend image view happend]
  obtain ⟨outcome, t⟩ := commit backend (entries updates) s
  simp only [Prod.map, ← htrim]
  rfl

end Replica

/-- A server and all entries that its log has ever been given. -/
structure Chronicle where
  server : LogServer
  history : List Entry

namespace Chronicle

def start : Chronicle where
  server := { mode := .live true }
  history := []

def append (readings : Nat → UInt64) (batch : List Fields) (c : Chronicle) :
    Except PoolError (List LogId) × Chronicle :=
  let (result, server) := c.server.append readings batch
  let added := server.log.entries.toList.drop c.server.log.entries.size
  (result, { server, history := c.history ++ added })

def trim (least : LogId) (c : Chronicle) : Except PoolError Nat × Chronicle :=
  let (result, server) := c.server.trim least
  (result, { c with server })

def setAvailable (available : Bool) (c : Chronicle) : Chronicle :=
  { c with server := c.server.setAvailable available }

/-- A chronicle as what sending needs of the log. -/
def backend (readings : Nat → UInt64) : Backend Chronicle where
  append batch c := c.append readings batch
  trim least c := c.trim least

def send (readings : Nat → UInt64) (ticketTtl : Span) (now : UInt64) (updates : List Update)
    (c : Chronicle) : List Response × Chronicle :=
  Replica.send (backend readings) ticketTtl now updates c

/-- The record changes nothing in what is sent and answered. -/
theorem send_server (readings : Nat → UInt64) (ticketTtl : Span) (now : UInt64)
    (updates : List Update) (c : Chronicle) :
    (c.send readings ticketTtl now updates).map id server =
      Replica.send (LogServer.backend readings) ticketTtl now updates c.server :=
  Replica.send_map (backend readings) (LogServer.backend readings) server
    (fun _ _ ↦ rfl) (fun _ _ ↦ rfl) ticketTtl now updates c

/-- The entries that a batch adds if the server is in reach. -/
def news (readings : Nat → UInt64) (batch : List Fields) (c : Chronicle) : List Entry :=
  c.server.log.added (LogServer.stamped readings batch)

/-- The log of a live server stands at the end of the history. -/
structure Faithful (c : Chronicle) : Prop where
  live : ∃ available, c.server.mode = .live available
  records : c.server.log.Records c.history

theorem faithful_start : start.Faithful where
  live := ⟨true, rfl⟩
  records := Log.records_empty

variable {c : Chronicle} {readings : Nat → UInt64} {batch : List Fields}

theorem news_fields : (c.news readings batch).map Entry.fields = batch := by
  rw [news, Log.added_fields, LogServer.stamped]
  exact List.ext_getElem (by simp) (by simp)

theorem append_of_available (h : c.server.mode = .live true) :
    c.append readings batch =
      (.ok ((c.news readings batch).map Entry.id),
        { server := { c.server with
            log := (c.server.log.append (LogServer.stamped readings batch)).2
            wakes := c.server.wakes + 1
            appends := c.server.appends ++ [batch.length] }
          history := c.history ++ c.news readings batch }) := by
  have hnews : ((c.server.log.append (LogServer.stamped readings batch)).2.entries.toList.drop
      c.server.log.entries.size) = c.news readings batch := by
    rw [Log.toList_append, ← Array.length_toList, List.drop_left, news]
  simp only [append, LogServer.append, h, Log.append_ids, hnews]
  rfl

theorem append_of_unavailable (h : c.server.mode = .live false) :
    c.append readings batch =
      (.error LogServer.offline,
        { c with server := { c.server with
            appends := c.server.appends ++ [batch.length] } }) := by
  simp [append, LogServer.append, h]

theorem trim_of_live {available : Bool} (h : c.server.mode = .live available)
    (least : LogId) :
    (c.trim least).2.server.mode = c.server.mode ∧ (c.trim least).2.history = c.history ∧
      (c.trim least).2.server.log =
        if available then c.server.log.trim least else c.server.log := by
  cases available <;> simp [trim, LogServer.trim, h]

theorem history_append : c.history <+: (c.append readings batch).2.history :=
  List.prefix_append _ _

theorem Faithful.append (h : c.Faithful)
    (hroom : Entry.Roomy (c.append readings batch).2.history) :
    (c.append readings batch).2.Faithful := by
  obtain ⟨available, hmode⟩ := h.live
  cases available with
  | true =>
    rw [append_of_available hmode] at hroom ⊢
    exact ⟨⟨true, hmode⟩, h.records.append _ hroom⟩
  | false =>
    rw [append_of_unavailable hmode]
    exact ⟨⟨false, hmode⟩, h.records⟩

theorem Faithful.trim (h : c.Faithful) (least : LogId) : (c.trim least).2.Faithful := by
  obtain ⟨available, hmode⟩ := h.live
  obtain ⟨hmode', hhistory, hlog⟩ := trim_of_live hmode least
  refine ⟨⟨available, hmode'.trans hmode⟩, ?_⟩
  rw [hlog, hhistory]
  split
  · exact h.records.trim least
  · exact h.records

theorem Faithful.setAvailable (h : c.Faithful) (available : Bool) :
    (c.setAvailable available).Faithful := by
  obtain ⟨before, hmode⟩ := h.live
  simp only [Chronicle.setAvailable, LogServer.setAvailable, hmode]
  exact ⟨⟨available, rfl⟩, h.records⟩

theorem commit_of_nil : Replica.commit (backend readings) [] c = (.ok [], c) :=
  rfl

theorem commit_of_available (h : c.server.mode = .live true) (hbatch : batch ≠ []) :
    Replica.commit (backend readings) batch c =
      (.ok ((c.news readings batch).map Entry.id), (c.append readings batch).2) := by
  have hcount : (c.news readings batch).length = batch.length := by
    rw [← List.length_map, news_fields]
  simp only [Replica.commit, if_neg hbatch, backend, append_of_available h, List.length_map,
    hcount, if_true]

theorem commit_of_unavailable (h : c.server.mode = .live false) (hbatch : batch ≠ []) :
    Replica.commit (backend readings) batch c =
      (.error (.batchWriteFailed LogServer.offline.message), (c.append readings batch).2) := by
  simp only [Replica.commit, if_neg hbatch, backend, append_of_unavailable h]

theorem commit_snd :
    (Replica.commit (backend readings) batch c).2 = c ∨
      (Replica.commit (backend readings) batch c).2 = (c.append readings batch).2 := by
  by_cases hbatch : batch = []
  · rw [hbatch, commit_of_nil]
    exact .inl rfl
  · right
    simp only [Replica.commit, if_neg hbatch, backend]
    obtain ⟨result, d⟩ := c.append readings batch
    cases result with
    | error e => rfl
    | ok ids => by_cases hcount : ids.length = batch.length <;> simp [hcount]

theorem send_snd (ticketTtl : Span) (now : UInt64) (updates : List Update) :
    (c.send readings ticketTtl now updates).2 =
      ((Replica.commit (backend readings) (Replica.entries updates) c).2.trim
        (Replica.trimPoint ticketTtl now)).2 :=
  rfl

theorem history_send (ticketTtl : Span) (now : UInt64) (updates : List Update) :
    (c.send readings ticketTtl now updates).2.history =
      (Replica.commit (backend readings) (Replica.entries updates) c).2.history :=
  rfl

theorem history_prefix_send (ticketTtl : Span) (now : UInt64) (updates : List Update) :
    c.history <+: (c.send readings ticketTtl now updates).2.history := by
  rw [history_send]
  rcases commit_snd with hsame | happend
  · exact (congrArg history hsame).symm ▸ List.prefix_refl c.history
  · rw [happend]
    exact history_append

theorem Faithful.send (h : c.Faithful) (ticketTtl : Span) (now : UInt64)
    (updates : List Update)
    (hroom : Entry.Roomy (c.send readings ticketTtl now updates).2.history) :
    (c.send readings ticketTtl now updates).2.Faithful := by
  rw [history_send] at hroom
  rw [send_snd]
  apply Faithful.trim
  rcases commit_snd with hsame | happend
  · rwa [hsame]
  · rw [happend] at hroom ⊢
    exact h.append hroom

theorem Faithful.numbered_append (h : c.Faithful) (hnumbered : Entry.Numbered c.history) :
    Entry.Numbered (c.append readings batch).2.history := by
  obtain ⟨available, hmode⟩ := h.live
  cases available with
  | true =>
    rw [append_of_available hmode]
    exact Log.numbered_added h.records.newest hnumbered _
  | false =>
    rw [append_of_unavailable hmode]
    exact hnumbered

theorem Faithful.numbered_send (h : c.Faithful) (hnumbered : Entry.Numbered c.history)
    (ticketTtl : Span) (now : UInt64) (updates : List Update) :
    Entry.Numbered (c.send readings ticketTtl now updates).2.history := by
  rw [history_send]
  rcases commit_snd with hsame | happend
  · rwa [hsame]
  · rw [happend]
    exact h.numbered_append hnumbered

section Runs

variable {World Step : Type} {chronicle : World → Chronicle} {step : World → Step → World}

/-- A run whose steps only add to the history only adds to it. -/
theorem history_foldl
    (hgrows : ∀ w op, (chronicle w).history <+: (chronicle (step w op)).history)
    (w : World) (ops : List Step) :
    (chronicle w).history <+: (chronicle (ops.foldl step w)).history := by
  induction ops generalizing w with
  | nil => exact List.prefix_refl _
  | cons op rest ih => exact (hgrows w op).trans (ih (step w op))

/-- What steps keep while the history stays within bounds, a run keeps that ends within
them. -/
theorem invariant_foldl (Inv : World → Prop) (Bound : List Entry → Prop)
    (hbound : ∀ {before after : List Entry}, before <+: after → Bound after → Bound before)
    (hgrows : ∀ w op, (chronicle w).history <+: (chronicle (step w op)).history)
    (hstep : ∀ w op, Inv w → Bound (chronicle (step w op)).history → Inv (step w op))
    {w : World} (hw : Inv w) (ops : List Step)
    (hroom : Bound (chronicle (ops.foldl step w)).history) :
    Inv (ops.foldl step w) := by
  induction ops generalizing w with
  | nil => exact hw
  | cons op rest ih =>
    have hnext := hbound (history_foldl hgrows (step w op) rest) hroom
    exact ih (hstep w op hw hnext) hroom

end Runs

end Chronicle

end TicketPool

import TicketPool.Proofs.Log.Chronicle

/-!
# Responses and the history

Replicas send batches to a server that comes in reach and goes out of it.  The responses
tell all that the log has ever been given: an update that was answered with an id stands in
the history under that id, in the order of the batches and of the updates in each, and
nothing else stands there.
-/

namespace TicketPool

structure Exchange where
  updates : List Update
  responses : List Response

/-- The ids that were answered, each with the fields of the update it was answered to. -/
def Exchange.accepted (x : Exchange) : List (String × Except PoolError Fields) :=
  ((x.updates.zip x.responses).filter fun (_, r) ↦ r.isOk).map fun (u, r) ↦
    (r.result, u.toFields)

/-- What the history has on record for an entry. -/
def Entry.filed (e : Entry) : String × Except PoolError Fields :=
  (e.id.text, .ok e.fields)

theorem Entry.key_of_createTicket {e : Entry} {u : Update} (h : e.toUpdate = .ok u)
    (hcreate : u.command = .createTicket) : u.key = e.id.text := by
  unfold Entry.toUpdate at h
  split at h
  · cases h
  · split_ifs at h
    · cases h
      rfl
    · cases h
      cases hcreate
    · cases h
      cases hcreate
    · split at h
      · cases h
        cases hcreate
      · cases h

namespace Exchange

variable {u : Update} {r : Response} {updates : List Update} {responses : List Response}

theorem accepted_cons_of_ok (hr : r.isOk = true) :
    accepted ⟨u :: updates, r :: responses⟩ =
      (r.result, u.toFields) :: accepted ⟨updates, responses⟩ := by
  simp [accepted, hr]

theorem accepted_cons_of_failed (hr : r.isOk = false) :
    accepted ⟨u :: updates, r :: responses⟩ = accepted ⟨updates, responses⟩ := by
  simp [accepted, hr]

end Exchange

namespace Replica

variable {u : Update} {e : PoolError} {fields : Fields}

theorem entries_cons_of_error (h : u.toFields = .error e) (updates : List Update) :
    entries (u :: updates) = entries updates := by
  rw [entries, List.filterMap_cons, h]
  rfl

theorem entries_cons_of_ok (h : u.toFields = .ok fields) (updates : List Update) :
    entries (u :: updates) = fields :: entries updates := by
  rw [entries, List.filterMap_cons, h]
  rfl

theorem respond_cons_of_malformed (h : u.toFields = .error e) (updates : List Update)
    (outcome : Except PoolError (List LogId)) :
    respond (u :: updates) outcome = .failed u.key e :: respond updates outcome := by
  simp [respond, h]

theorem respond_cons_error (h : u.toFields = .ok fields) (updates : List Update) :
    respond (u :: updates) (.error e) = .failed u.key e :: respond updates (.error e) := by
  simp [respond, h]

theorem respond_cons_ok (h : u.toFields = .ok fields) (updates : List Update) (id : LogId)
    (ids : List LogId) :
    respond (u :: updates) (.ok (id :: ids)) = .ok id.text :: respond updates (.ok ids) := by
  simp [respond, h]

theorem length_respond (updates : List Update) (outcome : Except PoolError (List LogId)) :
    (respond updates outcome).length = updates.length := by
  fun_induction respond updates outcome <;> simp_all

theorem accepted_respond_error (updates : List Update) (e : PoolError) :
    Exchange.accepted ⟨updates, respond updates (.error e)⟩ = [] := by
  induction updates with
  | nil => rfl
  | cons u rest ih =>
    cases hfields : u.toFields with
    | error malformed =>
      rwa [respond_cons_of_malformed hfields, Exchange.accepted_cons_of_failed rfl]
    | ok fields => rwa [respond_cons_error hfields, Exchange.accepted_cons_of_failed rfl]

theorem accepted_respond_ok (updates : List Update) (news : List Entry)
    (hnews : news.map Entry.fields = entries updates) :
    Exchange.accepted ⟨updates, respond updates (.ok (news.map Entry.id))⟩ =
      news.map Entry.filed := by
  induction updates generalizing news with
  | nil =>
    rw [List.map_eq_nil_iff.mp hnews]
    rfl
  | cons u rest ih =>
    cases hfields : u.toFields with
    | error e =>
      rw [entries_cons_of_error hfields] at hnews
      rw [respond_cons_of_malformed hfields, Exchange.accepted_cons_of_failed rfl]
      exact ih news hnews
    | ok fields =>
      rw [entries_cons_of_ok hfields] at hnews
      obtain ⟨e, later, rfl, hfirst, hlater⟩ := List.map_eq_cons_iff.mp hnews
      rw [List.map_cons, respond_cons_ok hfields, Exchange.accepted_cons_of_ok rfl,
        ih later hlater, List.map_cons, Entry.filed, hfields, hfirst]
      rfl

end Replica

/-- What happens to a server between and during the calls of its replicas. -/
inductive SendStep where
  | send (readings : Nat → UInt64) (ticketTtl : Span) (now : UInt64) (updates : List Update)
  | setAvailable (available : Bool)

/-- A chronicle and all batches that were sent to its server. -/
structure Correspondence where
  chronicle : Chronicle
  exchanges : List Exchange

namespace Correspondence

def start : Correspondence where
  chronicle := .start
  exchanges := []

def step (s : Correspondence) : SendStep → Correspondence
  | .send readings ticketTtl now updates =>
    let (responses, chronicle) := s.chronicle.send readings ticketTtl now updates
    { chronicle, exchanges := s.exchanges ++ [⟨updates, responses⟩] }
  | .setAvailable available =>
    { s with chronicle := s.chronicle.setAvailable available }

def run (s : Correspondence) (steps : List SendStep) : Correspondence :=
  steps.foldl step s

/-- The responses so far account for the history. -/
structure Accounted (s : Correspondence) : Prop where
  faithful : s.chronicle.Faithful
  answered : ∀ x ∈ s.exchanges, x.responses.length = x.updates.length
  filed : s.chronicle.history.map Entry.filed = s.exchanges.flatMap Exchange.accepted

theorem accounted_start : start.Accounted where
  faithful := Chronicle.faithful_start
  answered := fun _ hx ↦ absurd hx List.not_mem_nil
  filed := rfl

/-- One batch adds to the history what its responses say. -/
theorem history_send_filed {c : Chronicle} (h : c.Faithful) (readings : Nat → UInt64)
    (ticketTtl : Span) (now : UInt64) (updates : List Update) :
    (c.send readings ticketTtl now updates).2.history.map Entry.filed =
      c.history.map Entry.filed ++
        Exchange.accepted ⟨updates, (c.send readings ticketTtl now updates).1⟩ := by
  have hresponses : (c.send readings ticketTtl now updates).1 = Replica.respond updates
      (Replica.commit (Chronicle.backend readings) (Replica.entries updates) c).1 := rfl
  rw [Chronicle.history_send, hresponses]
  obtain ⟨available, hmode⟩ := h.live
  by_cases hentries : Replica.entries updates = []
  · have hnone := Replica.accepted_respond_ok updates [] hentries.symm
    rw [hentries, Chronicle.commit_of_nil]
    simpa using hnone
  · cases available with
    | true =>
      rw [Chronicle.commit_of_available hmode hentries, Chronicle.append_of_available hmode,
        List.map_append]
      rw [Replica.accepted_respond_ok updates _ Chronicle.news_fields]
    | false =>
      rw [Chronicle.commit_of_unavailable hmode hentries,
        Chronicle.append_of_unavailable hmode, Replica.accepted_respond_error,
        List.append_nil]

theorem Accounted.step {s : Correspondence} (h : s.Accounted) (op : SendStep)
    (hroom : Entry.Roomy (s.step op).chronicle.history) : (s.step op).Accounted := by
  cases op with
  | send readings ticketTtl now updates =>
    refine ⟨h.faithful.send ticketTtl now updates hroom, ?_, ?_⟩
    · intro x hx
      rcases List.mem_append.mp hx with hold | hnew
      · exact h.answered x hold
      · rw [List.mem_singleton.mp hnew]
        exact Replica.length_respond _ _
    · have hfiled := history_send_filed h.faithful readings ticketTtl now updates
      rw [h.filed] at hfiled
      simpa [Correspondence.step] using hfiled
  | setAvailable available =>
    exact ⟨h.faithful.setAvailable available, h.answered, h.filed⟩

theorem history_step (s : Correspondence) (op : SendStep) :
    s.chronicle.history <+: (s.step op).chronicle.history := by
  cases op with
  | send readings ticketTtl now updates => exact Chronicle.history_prefix_send _ _ _
  | setAvailable available => exact List.prefix_refl _

theorem Accounted.numbered_step {s : Correspondence} (h : s.Accounted)
    (hnumbered : Entry.Numbered s.chronicle.history) (op : SendStep) :
    Entry.Numbered (s.step op).chronicle.history := by
  cases op with
  | send readings ticketTtl now updates =>
    exact h.faithful.numbered_send hnumbered ticketTtl now updates
  | setAvailable available => exact hnumbered

/-- The responses account for a history that is not too long for the numbers of its ids. -/
theorem accounted_run (steps : List SendStep)
    (hroom : (start.run steps).chronicle.history.length < 2 ^ 64) :
    (start.run steps).Accounted := by
  let Inv (s : Correspondence) : Prop := s.Accounted ∧ Entry.Numbered s.chronicle.history
  have hstep : ∀ s op, Inv s → (s.step op).chronicle.history.length < 2 ^ 64 →
      Inv (s.step op) := by
    rintro s op ⟨hs, hnumbered⟩ hlength
    have hnext := hs.numbered_step hnumbered op
    exact ⟨hs.step op (hnext.roomy hlength), hnext⟩
  have hstart : Inv start := ⟨accounted_start, fun _ he ↦ absurd he List.not_mem_nil⟩
  exact (Chronicle.invariant_foldl Inv (fun history ↦ history.length < 2 ^ 64)
    (fun hgrown hafter ↦ lt_of_le_of_lt hgrown.length_le hafter) history_step hstep hstart
    steps hroom).1

/-- Whatever the replicas send, whatever their clocks read and whenever the server is out of
reach: the history is what the responses say, its ids ascend, and no two tickets in it have
the same key. -/
theorem responses_account_for_history (steps : List SendStep)
    (hroom : (start.run steps).chronicle.history.length < 2 ^ 64) :
    let s := start.run steps
    (∀ x ∈ s.exchanges, x.responses.length = x.updates.length) ∧
      s.chronicle.history.map Entry.filed = s.exchanges.flatMap Exchange.accepted ∧
      s.chronicle.server.log.entries.toList <:+ s.chronicle.history ∧
      s.chronicle.history.Pairwise (fun a b ↦ a.id < b.id) ∧
      (s.chronicle.history.map Entry.id).Nodup ∧
      s.chronicle.history.Pairwise fun a b ↦ ∀ u v, a.toUpdate = .ok u → b.toUpdate = .ok v →
        u.command = .createTicket → v.command = .createTicket → u.key ≠ v.key := by
  intro s
  have h : s.Accounted := accounted_run steps hroom
  have hascending := h.faithful.records.ascending
  refine ⟨h.answered, h.filed, h.faithful.records.kept, hascending, ?_, ?_⟩
  · exact List.pairwise_map.mpr (hascending.imp fun hab ↦ ne_of_lt hab)
  · refine hascending.imp fun {a b} hab u v hu hv hcreate hcreate' hkey ↦ ?_
    rw [Entry.key_of_createTicket hu hcreate, Entry.key_of_createTicket hv hcreate'] at hkey
    exact ne_of_lt hab (LogId.text_injective hkey)

/-- Two replicas, a malformed update and an outage, while the clock runs back. -/
def outage : List SendStep :=
  [.send (fun _ ↦ 1700000000005) (.ofMillis 600000) 1700000000005
      [.createTicket "first", .activate "", .createTicket "second"],
    .setAvailable false,
    .send (fun _ ↦ 1700000000006) (.ofMillis 600000) 1700000000006 [.createTicket "lost"],
    .setAvailable true,
    .send (fun _ ↦ 1700000000001) (.ofMillis 1) 1700000000001 [.activate "1700000000005-0"]]

theorem outage_accounted :
    (start.run outage).chronicle.history.length = 3 ∧
      (start.run outage).chronicle.history.map Entry.filed =
        (start.run outage).exchanges.flatMap Exchange.accepted := by
  have hlength : (start.run outage).chronicle.history.length = 3 := by decide +kernel
  exact ⟨hlength, (responses_account_for_history outage (by rw [hlength]; decide)).2.1⟩

end Correspondence

end TicketPool

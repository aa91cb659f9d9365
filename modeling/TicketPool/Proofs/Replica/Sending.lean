import TicketPool.Proofs.Replica.Acknowledgement

/-!
# Batches on any log

A replica sends a batch to a log of which nothing is known: its appends may fail or return any
ids, and its trims may fail.  Each update gets one response at its own place, and what becomes of
the updates that can be written does not depend on those that cannot.
-/

namespace TicketPool

/-- A call that sending makes on the log. -/
inductive BackendCall where
  | append (batch : List Fields)
  | trim (least : LogId)
deriving DecidableEq

/-- The calls for a batch: its entries in one append, if there are any, and then a trim. -/
def BackendCall.forBatch (entries : List Fields) (least : LogId) : List BackendCall :=
  if entries = [] then [.trim least] else [.append entries, .trim least]

/-- A backend together with the calls that were made on it, in order. -/
def Backend.recorded {σ : Type} (backend : Backend σ) : Backend (σ × List BackendCall) where
  append batch s :=
    let (result, t) := backend.append batch s.1
    (result, t, s.2 ++ [.append batch])
  trim least s :=
    let (result, t) := backend.trim least s.1
    (result, t, s.2 ++ [.trim least])

/-- Whether an update has all parts that its command needs. -/
def Update.isWritable (u : Update) : Bool :=
  u.toFields.toOption.isSome

namespace Update

variable {u : Update} {fields : Fields} {e : PoolError}

theorem isWritable_of_ok (h : u.toFields = .ok fields) : u.isWritable = true := by
  rw [isWritable, h]
  rfl

theorem not_isWritable_of_error (h : u.toFields = .error e) : ¬ u.isWritable = true := by
  rw [isWritable, h]
  exact Bool.false_ne_true

theorem ne_internal_of_error (h : u.toFields = .error e) (reason : String) :
    e ≠ .internal reason := by
  unfold toFields at h
  rintro rfl
  split at h <;> split_ifs at h <;> cases h

end Update

namespace Replica

/-- The responses that a batch must get, given what its append returns. -/
structure Answers (batch : List Update) (result : Except PoolError (List LogId))
    (responses : List Response) : Prop where
  length : responses.length = batch.length
  malformed : ∀ (i : Nat) (u : Update) (e : PoolError), batch[i]? = some u →
    u.toFields = .error e → responses[i]? = some (.failed u.key e)
  refused : ∀ (i : Nat) (u : Update) (fields : Fields) (e : PoolError), batch[i]? = some u →
    u.toFields = .ok fields → result = .error e →
      responses[i]? = some (.failed u.key (.batchWriteFailed e.message))
  miscounted : ∀ (i : Nat) (u : Update) (fields : Fields) (ids : List LogId),
    batch[i]? = some u → u.toFields = .ok fields → result = .ok ids →
      ids.length ≠ (entries batch).length → responses[i]? =
        some (.failed u.key (.resultCountMismatch (entries batch).length ids.length))
  /-- The id has the place among the ids that the update has among those that are sent. -/
  written : ∀ (i : Nat) (u : Update) (fields : Fields) (ids : List LogId),
    batch[i]? = some u → u.toFields = .ok fields → result = .ok ids →
      ids.length = (entries batch).length →
        ∃ id, ids[(entries (batch.take i)).length]? = some id ∧
          responses[i]? = some (.ok id.text)

variable {σ : Type} {backend : Backend σ}

section Respond

variable {updates : List Update} {i : Nat} {u : Update} {fields : Fields} {e : PoolError}
  {outcome : Except PoolError (List LogId)} {ids : List LogId}

/-- The response to an update that comes first. -/
def answer (u : Update) (outcome : Except PoolError (List LogId)) : Response :=
  match u.toFields, outcome with
  | .error e, _ => .failed u.key e
  | .ok _, .error e => .failed u.key e
  | .ok _, .ok (id :: _) => .ok id.text
  | .ok _, .ok [] => .failed u.key (.internal "commit returned too few ids")

/-- What is left of an outcome behind updates that have taken so many ids. -/
def leave (count : Nat) (outcome : Except PoolError (List LogId)) :
    Except PoolError (List LogId) :=
  outcome.map (List.drop count)

theorem leave_zero : leave 0 outcome = outcome := by
  cases outcome <;> rfl

theorem leave_leave (first second : Nat) :
    leave second (leave first outcome) = leave (first + second) outcome := by
  cases outcome with
  | error e => rfl
  | ok ids => exact congrArg Except.ok List.drop_drop

theorem answer_of_malformed (hu : u.toFields = .error e) :
    answer u outcome = .failed u.key e := by
  simp only [answer, hu]

theorem answer_of_error (hu : u.toFields = .ok fields) :
    answer u (.error e) = .failed u.key e := by
  simp only [answer, hu]

theorem answer_of_ok (hu : u.toFields = .ok fields) (id : LogId) (ids : List LogId) :
    answer u (.ok (id :: ids)) = .ok id.text := by
  simp only [answer, hu]

theorem respond_cons (u : Update) (rest : List Update)
    (outcome : Except PoolError (List LogId)) :
    respond (u :: rest) outcome =
      answer u outcome :: respond rest (leave (entries [u]).length outcome) := by
  cases hu : u.toFields with
  | error e =>
    have hnone : (entries [u]).length = 0 := by
      rw [entries_cons_of_error hu]
      rfl
    rw [respond_cons_of_malformed hu, answer_of_malformed hu, hnone, leave_zero]
  | ok fields =>
    have hone : (entries [u]).length = 1 := by
      rw [entries_cons_of_ok hu]
      rfl
    rw [hone]
    rcases outcome with e | _ | ⟨id, ids⟩ <;> simp [respond, answer, hu, leave, Except.map]

theorem entries_append (first second : List Update) :
    entries (first ++ second) = entries first ++ entries second :=
  List.filterMap_append

/-- Each update is answered from what those before it have left. -/
theorem respond_getElem? (hu : updates[i]? = some u) :
    (respond updates outcome)[i]? =
      some (answer u (leave (entries (updates.take i)).length outcome)) := by
  induction updates generalizing i outcome with
  | nil => simp at hu
  | cons v rest ih =>
    rw [respond_cons]
    cases i with
    | zero =>
      obtain rfl : v = u := by simpa using hu
      exact congrArg (fun left ↦ some (answer v left)) leave_zero.symm
    | succ i =>
      -- What the first update takes and what those behind it take add up.
      have htaken : entries ((v :: rest).take (i + 1)) = entries [v] ++ entries (rest.take i) :=
        entries_append [v] (rest.take i)
      rw [List.getElem?_cons_succ, ih hu, leave_leave, htaken, List.length_append]

theorem respond_of_malformed (hu : updates[i]? = some u) (he : u.toFields = .error e) :
    (respond updates outcome)[i]? = some (.failed u.key e) := by
  rw [respond_getElem? hu, answer_of_malformed he]

theorem respond_of_error (hu : updates[i]? = some u) (hfields : u.toFields = .ok fields) :
    (respond updates (.error e))[i]? = some (.failed u.key e) := by
  exact (respond_getElem? hu).trans (congrArg some (answer_of_error hfields))

theorem length_entries_take_lt (hu : updates[i]? = some u) (hfields : u.toFields = .ok fields) :
    (entries (updates.take i)).length < (entries updates).length := by
  have hsplit : entries updates = entries (updates.take i) ++ entries (updates.drop i) := by
    rw [← entries_append, List.take_append_drop]
  have hdrop : updates.drop i = u :: updates.drop (i + 1) := by
    obtain ⟨hi, rfl⟩ := List.getElem?_eq_some_iff.mp hu
    exact List.drop_eq_getElem_cons hi
  rw [hsplit, hdrop, entries_cons_of_ok hfields, List.length_append, List.length_cons]
  omega

theorem respond_of_ok (hu : updates[i]? = some u) (hfields : u.toFields = .ok fields)
    (hids : (entries updates).length ≤ ids.length) :
    ∃ id, ids[(entries (updates.take i)).length]? = some id ∧
      (respond updates (.ok ids))[i]? = some (.ok id.text) := by
  have hplace : (entries (updates.take i)).length < ids.length :=
    (length_entries_take_lt hu hfields).trans_le hids
  refine ⟨ids[(entries (updates.take i)).length], List.getElem?_eq_getElem hplace, ?_⟩
  have hleft : leave (entries (updates.take i)).length (.ok ids) =
      .ok (ids[(entries (updates.take i)).length] ::
        ids.drop ((entries (updates.take i)).length + 1)) :=
    congrArg Except.ok (List.drop_eq_getElem_cons hplace)
  rw [respond_getElem? hu, hleft, answer_of_ok hfields]

/-- Updates that cannot be written take nothing from the outcome. -/
theorem zip_respond_filter (updates : List Update) (outcome : Except PoolError (List LogId)) :
    ((updates.zip (respond updates outcome)).filter fun (u, _) ↦ u.isWritable) =
      (updates.filter Update.isWritable).zip
        (respond (updates.filter Update.isWritable) outcome) := by
  induction updates generalizing outcome with
  | nil => rfl
  | cons u rest ih =>
    cases hu : u.toFields with
    | error e =>
      have hmalformed := Update.not_isWritable_of_error hu
      rw [respond_cons_of_malformed hu, List.filter_cons_of_neg hmalformed, ← ih]
      exact List.filter_cons_of_neg hmalformed
    | ok fields =>
      have hwritable := Update.isWritable_of_ok hu
      rw [List.filter_cons_of_pos hwritable, respond_cons, respond_cons, List.zip_cons_cons,
        List.zip_cons_cons, ← ih]
      exact List.filter_cons_of_pos hwritable

end Respond

theorem entries_filter (updates : List Update) :
    entries (updates.filter Update.isWritable) = entries updates := by
  induction updates with
  | nil => rfl
  | cons u rest ih =>
    cases hu : u.toFields with
    | error e =>
      rw [List.filter_cons_of_neg (Update.not_isWritable_of_error hu), ih,
        entries_cons_of_error hu]
    | ok fields =>
      rw [List.filter_cons_of_pos (Update.isWritable_of_ok hu), entries_cons_of_ok hu,
        entries_cons_of_ok hu, ih]

/-- What the result of an append of so many entries comes to. -/
def settle (count : Nat) : Except PoolError (List LogId) → Except PoolError (List LogId)
  | .error e => .error (.batchWriteFailed e.message)
  | .ok ids =>
    if ids.length = count then .ok ids else .error (.resultCountMismatch count ids.length)

theorem commit_of_ne_nil {batch : List Fields} (h : batch ≠ []) (s : σ) :
    commit backend batch s =
      (settle batch.length (backend.append batch s).1, (backend.append batch s).2) := by
  rw [commit, if_neg h]
  obtain ⟨result, t⟩ := backend.append batch s
  cases result with
  | error e => rfl
  | ok ids => by_cases hcount : ids.length = batch.length <;> simp [settle, hcount]

theorem send_recorded (ticketTtl : Span) (now : UInt64) (batch : List Update) (s : σ)
    (calls : List BackendCall) :
    send backend.recorded ticketTtl now batch (s, calls) =
      ((send backend ticketTtl now batch s).1, (send backend ticketTtl now batch s).2,
        calls ++ BackendCall.forBatch (entries batch) (trimPoint ticketTtl now)) := by
  by_cases hnone : entries batch = []
  · simp only [send, commit, BackendCall.forBatch, if_pos hnone]
    rfl
  · rw [send, send, commit_of_ne_nil hnone, commit_of_ne_nil hnone, BackendCall.forBatch,
      if_neg hnone]
    exact Prod.ext rfl (Prod.ext rfl (List.append_assoc _ _ _))

theorem ne_nil_of_writable {batch : List Update} {i : Nat} {u : Update} {fields : Fields}
    (hu : batch[i]? = some u) (hfields : u.toFields = .ok fields) : entries batch ≠ [] := by
  have hmem : fields ∈ entries batch :=
    List.mem_filterMap.mpr ⟨u, List.mem_of_getElem? hu, by rw [hfields]; rfl⟩
  exact List.ne_nil_of_mem hmem

theorem answers_send (ticketTtl : Span) (now : UInt64) (batch : List Update) (s : σ) :
    Answers batch (backend.append (entries batch) s).1 (send backend ticketTtl now batch s).1 := by
  set result := (backend.append (entries batch) s).1 with hresult
  have hmalformed : ∀ (i : Nat) (u : Update) (e : PoolError), batch[i]? = some u →
      u.toFields = .error e →
        (send backend ticketTtl now batch s).1[i]? = some (.failed u.key e) :=
    fun i u e hu he ↦ respond_of_malformed hu he
  -- If any update can be written, the append decides what becomes of all that can.
  have hsend : ∀ (i : Nat) (u : Update) (fields : Fields), batch[i]? = some u →
      u.toFields = .ok fields → (send backend ticketTtl now batch s).1 =
        respond batch (settle (entries batch).length result) := by
    intro i u fields hu hfields
    rw [send, commit_of_ne_nil (ne_nil_of_writable hu hfields)]
  refine ⟨length_respond _ _, hmalformed, ?_, ?_, ?_⟩
  · intro i u fields e hu hfields he
    rw [hsend i u fields hu hfields, he]
    exact respond_of_error hu hfields
  · intro i u fields ids hu hfields hids hcount
    rw [hsend i u fields hu hfields, hids, settle, if_neg hcount]
    exact respond_of_error hu hfields
  · intro i u fields ids hu hfields hids hcount
    rw [hsend i u fields hu hfields, hids, settle, if_pos hcount]
    exact respond_of_ok hu hfields hcount.ge

/-- The response of last resort is never given. -/
theorem Answers.ne_internal {batch : List Update} {result : Except PoolError (List LogId)}
    {responses : List Response} (h : Answers batch result responses) {r : Response}
    (hr : r ∈ responses) (reason : String) : r.error ≠ some (.internal reason) := by
  obtain ⟨i, hi⟩ := List.mem_iff_getElem?.mp hr
  obtain ⟨hlt, -⟩ := List.getElem?_eq_some_iff.mp hi
  obtain ⟨u, hu⟩ : ∃ u, batch[i]? = some u :=
    ⟨_, List.getElem?_eq_getElem (h.length ▸ hlt)⟩
  cases hfields : u.toFields with
  | error e =>
    obtain rfl := Option.some.inj (hi.symm.trans (h.malformed i u e hu hfields))
    exact fun heq ↦ Update.ne_internal_of_error hfields reason (Option.some.inj heq)
  | ok fields =>
    cases hresult : result with
    | error e =>
      obtain rfl := Option.some.inj (hi.symm.trans (h.refused i u fields e hu hfields hresult))
      simp [Response.failed]
    | ok ids =>
      by_cases hcount : ids.length = (entries batch).length
      · obtain ⟨id, -, hid⟩ := h.written i u fields ids hu hfields hresult hcount
        obtain rfl := Option.some.inj (hi.symm.trans hid)
        simp [Response.ok]
      · obtain rfl := Option.some.inj
          (hi.symm.trans (h.miscounted i u fields ids hu hfields hresult hcount))
        simp [Response.failed]

theorem send_of_filter_eq (ticketTtl : Span) (now : UInt64) {batch other : List Update} (s : σ)
    (h : other.filter Update.isWritable = batch.filter Update.isWritable) :
    (send backend ticketTtl now other s).2 = (send backend ticketTtl now batch s).2 ∧
      ((other.zip (send backend ticketTtl now other s).1).filter fun (u, _) ↦ u.isWritable) =
        (batch.zip (send backend ticketTtl now batch s).1).filter fun (u, _) ↦
          u.isWritable := by
  have hentries : entries other = entries batch := by
    rw [← entries_filter other, h, entries_filter]
  constructor
  · simp only [send, hentries]
  · simp only [send, hentries]
    rw [zip_respond_filter, zip_respond_filter, h]

/-- Sending makes the calls of the batch, each update gets its own response, and updates that
cannot be written make no difference to the others. -/
theorem send_answers (backend : Backend σ) (ticketTtl : Span) (now : UInt64)
    (batch : List Update) (s : σ) (calls : List BackendCall) :
    ∃ responses t,
      send backend.recorded ticketTtl now batch (s, calls) =
        (responses, t,
          calls ++ BackendCall.forBatch (entries batch) (trimPoint ticketTtl now)) ∧
      Answers batch (backend.append (entries batch) s).1 responses ∧
      (∀ r ∈ responses, ∀ reason, r.error ≠ some (.internal reason)) ∧
      ∀ other : List Update, other.filter Update.isWritable = batch.filter Update.isWritable →
        (send backend ticketTtl now other s).2 = t ∧
          ((other.zip (send backend ticketTtl now other s).1).filter fun (u, _) ↦
              u.isWritable) =
            (batch.zip responses).filter fun (u, _) ↦ u.isWritable := by
  have hanswers : Answers batch (backend.append (entries batch) s).1
      (send backend ticketTtl now batch s).1 := answers_send ticketTtl now batch s
  exact ⟨_, _, send_recorded ticketTtl now batch s calls, hanswers,
    fun r hr reason ↦ hanswers.ne_internal hr reason,
    fun other h ↦ send_of_filter_eq ticketTtl now s h⟩

end Replica

end TicketPool

import TicketPool.Proofs.Replica.Subscriber

/-!
# Delivery

While entries are added and trimmed and the server comes and goes, a subscriber is given
every entry behind its first cursor once and in order, unless the entry was trimmed before
the call that moved the cursor past it, or records no update.
-/

namespace TicketPool

namespace Replica

theorem cursorAfter_of_getLast? {found : List Entry} {x : Entry}
    (hx : found.getLast? = some x) (cursor : LogId) : cursorAfter cursor found = x.id := by
  obtain ⟨front, rfl⟩ := List.getLast?_eq_some_iff.mp hx
  simp [cursorAfter]

/-- The cursor behind the oldest entries of larger ids. -/
theorem cursorAfter_take {kept : List Entry} (hkept : kept.Pairwise Entry.Before)
    (cursor : LogId) (n : Nat) {found : List Entry}
    (hfound : found = (kept.filter fun e ↦ decide (cursor < e.id)).take n) :
    cursor ≤ cursorAfter cursor found ∧
      (cursorAfter cursor found = cursor ∨ ∃ e ∈ found, cursorAfter cursor found = e.id) ∧
      ∀ e, e ∈ found ↔ e ∈ kept ∧ cursor < e.id ∧ e.id ≤ cursorAfter cursor found := by
  cases hlast : found.getLast? with
  | none =>
    rw [List.getLast?_eq_none_iff.mp hlast]
    refine ⟨le_refl _, .inl rfl, fun e ↦ ⟨fun he ↦ absurd he List.not_mem_nil, ?_⟩⟩
    rintro ⟨-, hlt, hle⟩
    exact absurd hle (not_le.mpr hlt)
  | some x =>
    have hx : x ∈ found := List.mem_of_getLast? hlast
    have hmem : ∀ e, e ∈ found ↔ (e ∈ kept ∧ cursor < e.id) ∧ e.id ≤ x.id := by
      intro e
      rw [hfound] at hlast ⊢
      rw [Entry.mem_take_iff (hkept.filter _) hlast, List.mem_filter, decide_eq_true_eq]
    rw [cursorAfter_of_getLast? hlast]
    refine ⟨le_of_lt ((hmem x).mp hx).1.2, .inr ⟨x, hx, rfl⟩, fun e ↦ ?_⟩
    rw [hmem, and_assoc]

theorem updates_append (first second : List Entry) :
    updates (first ++ second) = updates first ++ updates second :=
  List.filterMap_append

end Replica

namespace Subscriber

variable {s : Subscriber} {server : LogServer} {result : Except PoolError (List Entry)} {e : Entry}

theorem received_conclude (s : Subscriber) (server : LogServer)
    (result : Except PoolError (List Entry)) :
    (s.conclude server result).received =
      s.received ++ (Replica.receive s.cursor result).1 := by
  simp [received, conclude]

theorem caught_conclude :
    (s.conclude server result).Caught e ↔ s.Caught e ∨
      s.cursor < e.id ∧ e.id ≤ (s.conclude server result).cursor ∧
        e ∈ server.log.entries.toList := by
  simp [Caught, conclude, or_and_right, exists_or]

theorem mem_calls_conclude {call : Call} (hcall : call ∈ (s.conclude server result).calls) :
    call ∈ s.calls ∨ call.origin = s.cursor ∧ call.result = result ∧
      Replica.receive s.cursor result = (call.returned, call.target) := by
  rcases List.mem_append.mp hcall with hold | hnew
  · exact .inl hold
  · rw [List.mem_singleton.mp hnew]
    exact .inr ⟨rfl, rfl, rfl⟩

end Subscriber

/-- How far a subscriber that started at a cursor has come with a history. -/
structure Delivered (origin : LogId) (c : Chronicle) (s : Subscriber) : Prop where
  patient : ∀ reader, s.reader = some reader → s.Patient reader
  started : origin ≤ s.cursor
  placed : s.cursor = origin ∨ ∃ e ∈ c.history, s.cursor = e.id
  behind : ∀ call ∈ s.calls, call.target ≤ s.cursor
  idle : ∀ call ∈ s.calls, ∀ e, call.result = .error e →
    call.returned = [] ∧ call.target = call.origin
  received : s.received = Replica.updates
    (c.history.filter fun e ↦ origin < e.id ∧ e.id ≤ s.cursor ∧ s.Caught e)

namespace Delivered

theorem start (origin : LogId) (count block : Nat) :
    Delivered origin .start { count, block, cursor := origin } where
  patient := fun _ hreader ↦ by cases hreader
  started := le_refl _
  placed := .inl rfl
  behind := fun _ hcall ↦ absurd hcall List.not_mem_nil
  idle := fun _ hcall ↦ absurd hcall List.not_mem_nil
  received := rfl

variable {origin : LogId} {c d : Chronicle} {s : Subscriber}

theorem caught_le (h : Delivered origin c s) {e : Entry} (he : s.Caught e) :
    e.id ≤ s.cursor := by
  obtain ⟨call, hcall, -, hle, -⟩ := he
  exact hle.trans (h.behind call hcall)

/-- New entries lie behind the cursor. -/
theorem cursor_lt_news (h : Delivered origin c s) {news : List Entry}
    (hascending : (c.history ++ news).Pairwise Entry.Before) {e : Entry} (he : e ∈ news)
    (hstart : origin < e.id) : s.cursor < e.id := by
  rcases h.placed with hcursor | ⟨last, hlast, hcursor⟩
  · rw [hcursor]
    exact hstart
  · rw [hcursor]
    exact (List.pairwise_append.mp hascending).2.2 last hlast e he

theorem extend (h : Delivered origin c s) (hgrown : c.history <+: d.history)
    (hascending : d.history.Pairwise Entry.Before) : Delivered origin d s where
  patient := h.patient
  started := h.started
  placed := h.placed.imp_right fun ⟨e, he, hcursor⟩ ↦ ⟨e, hgrown.subset he, hcursor⟩
  behind := h.behind
  idle := h.idle
  received := by
    obtain ⟨news, hnews⟩ := hgrown
    rw [← hnews] at hascending
    have hlater : news.filter (fun e ↦ origin < e.id ∧ e.id ≤ s.cursor ∧ s.Caught e) = [] := by
      rw [List.filter_eq_nil_iff]
      intro e he hpassed
      obtain ⟨hstart, hle, -⟩ := of_decide_eq_true hpassed
      exact absurd hle (not_le.mpr (h.cursor_lt_news hascending he hstart))
    rw [← hnews, List.filter_append, hlater, List.append_nil]
    exact h.received

section Conclude

variable {result : Except PoolError (List Entry)} {found : List Entry} {n : Nat}

theorem cursor_conclude (hreceive : Replica.receive s.cursor result =
      (Replica.updates found, Replica.cursorAfter s.cursor found)) :
    (s.conclude c.server result).cursor = Replica.cursorAfter s.cursor found := by
  rw [Subscriber.conclude, hreceive]

/-- A call catches what it finds.  Both lists ascend, so they are equal if they have the same
members. -/
theorem filter_conclude (h : Delivered origin c s) (hc : c.Faithful)
    (hfound : found = (c.server.log.entries.toList.filter fun e ↦ decide (s.cursor < e.id)).take n)
    (hreceive : Replica.receive s.cursor result =
      (Replica.updates found, Replica.cursorAfter s.cursor found)) :
    c.history.filter (fun e ↦ origin < e.id ∧ e.id ≤ (s.conclude c.server result).cursor ∧
        (s.conclude c.server result).Caught e) =
      c.history.filter (fun e ↦ origin < e.id ∧ e.id ≤ s.cursor ∧ s.Caught e) ++ found := by
  obtain ⟨hle, -, hmem⟩ := Replica.cursorAfter_take hc.records.sorted s.cursor n hfound
  apply (hc.records.ascending.filter _).eq_of_mem_iff
  · rw [List.pairwise_append]
    refine ⟨hc.records.ascending.filter _, ?_, ?_⟩
    · rw [hfound]
      exact (hc.records.sorted.filter _).sublist (List.take_sublist _ _)
    · intro a ha b hb
      obtain ⟨-, hpassed⟩ := List.mem_filter.mp ha
      obtain ⟨-, hale, -⟩ := of_decide_eq_true hpassed
      exact lt_of_le_of_lt hale ((hmem b).mp hb).2.1
  · intro e
    rw [List.mem_append, List.mem_filter, List.mem_filter, decide_eq_true_eq,
      decide_eq_true_eq, Subscriber.caught_conclude, cursor_conclude hreceive, hmem]
    constructor
    · rintro ⟨he, hstart, hpassed, hcaught | ⟨hlt, -, hkept⟩⟩
      · exact .inl ⟨he, hstart, h.caught_le hcaught, hcaught⟩
      · exact .inr ⟨hkept, hlt, hpassed⟩
    · rintro (⟨he, hstart, hpassed, hcaught⟩ | ⟨hkept, hlt, hpassed⟩)
      · exact ⟨he, hstart, hpassed.trans hle, .inl hcaught⟩
      · exact ⟨hc.records.kept.subset hkept, lt_of_le_of_lt h.started hlt, hpassed,
          .inr ⟨hlt, hpassed, hkept⟩⟩

/-- A call that comes back with the oldest entries behind the cursor. -/
theorem conclude (h : Delivered origin c s) (hc : c.Faithful)
    (hfound : found = (c.server.log.entries.toList.filter fun e ↦ decide (s.cursor < e.id)).take n)
    (hreceive : Replica.receive s.cursor result =
      (Replica.updates found, Replica.cursorAfter s.cursor found))
    (hfailed : ∀ e, result = .error e → found = []) :
    Delivered origin c (s.conclude c.server result) := by
  obtain ⟨hle, htarget, hmem⟩ := Replica.cursorAfter_take hc.records.sorted s.cursor n hfound
  refine ⟨?_, ?_, ?_, ?_, ?_, ?_⟩
  · intro reader hreader
    simp [Subscriber.conclude] at hreader
  · rw [cursor_conclude hreceive]
    exact h.started.trans hle
  · rw [cursor_conclude hreceive]
    rcases htarget with hsame | ⟨e, he, hid⟩
    · rw [hsame]
      exact h.placed
    · exact .inr ⟨e, hc.records.kept.subset ((hmem e).mp he).1, hid⟩
  · intro call hcall
    rw [cursor_conclude hreceive]
    rcases Subscriber.mem_calls_conclude hcall with hold | ⟨-, -, hcame⟩
    · exact (h.behind call hold).trans hle
    · rw [hreceive, Prod.mk.injEq] at hcame
      rw [hcame.2]
  · intro call hcall e he
    rcases Subscriber.mem_calls_conclude hcall with hold | ⟨horigin, hresult, hcame⟩
    · exact h.idle call hold e he
    · rw [hreceive, hfailed e (hresult.symm.trans he), Prod.mk.injEq] at hcame
      exact ⟨hcame.1.symm, hcame.2.symm.trans horigin.symm⟩
  · rw [h.filter_conclude hc hfound hreceive, Replica.updates_append,
      Subscriber.received_conclude, hreceive, h.received]

end Conclude

/-- What a turn comes to: the call waits, or it comes back with the oldest kept entries behind
the cursor, with none of them if it has failed. -/
theorem turn_cases (h : Delivered origin c s) (hc : c.Faithful) (now : Nat) :
    (∃ reader, s.Patient reader ∧ s.turn c.server now = { s with reader := some reader }) ∨
      ∃ result found n, s.turn c.server now = s.conclude c.server result ∧
        found = (c.server.log.entries.toList.filter fun e ↦ decide (s.cursor < e.id)).take n ∧
        Replica.receive s.cursor result =
          (Replica.updates found, Replica.cursorAfter s.cursor found) ∧
        ∀ e, result = .error e → found = [] := by
  obtain ⟨available, hlive⟩ := hc.live
  obtain ⟨reader, hsettles, hturn⟩ := Subscriber.turn_eq_settle hlive h.patient now
  rw [hturn]
  cases hsettles with
  | waits reader hpatient =>
    refine .inl ⟨reader, hpatient, ?_⟩
    obtain ⟨deadline, seen, rfl⟩ := hpatient
    rfl
  | fails time e => exact .inr ⟨.error e, [], 0, rfl, rfl, rfl, fun _ _ ↦ rfl⟩
  | expires time => exact .inr ⟨.ok [], [], 0, rfl, rfl, rfl, fun _ _ ↦ rfl⟩
  | finds time =>
    have hfound := Log.after_eq_take_filter hc.records.sorted s.cursor s.count
    exact .inr ⟨.ok _, _, s.count, rfl, hfound, rfl, fun _ he ↦ by cases he⟩

theorem turn (h : Delivered origin c s) (hc : c.Faithful) (now : Nat) :
    Delivered origin c (s.turn c.server now) := by
  rcases h.turn_cases hc now with ⟨reader, hpatient, hturn⟩ |
    ⟨result, found, n, hturn, hfound, hreceive, hfailed⟩
  · rw [hturn]
    refine ⟨?_, h.started, h.placed, h.behind, h.idle, h.received⟩
    intro other hother
    cases hother
    exact hpatient
  · rw [hturn]
    exact h.conclude hc hfound hreceive hfailed

/-- A turn catches the kept entries that it moves the cursor past. -/
theorem caught_turn (h : Delivered origin c s) (hc : c.Faithful) (now : Nat) {e : Entry} :
    (s.turn c.server now).Caught e ↔ s.Caught e ∨
      s.cursor < e.id ∧ e.id ≤ (s.turn c.server now).cursor ∧
        e ∈ c.server.log.entries.toList := by
  rcases h.turn_cases hc now with ⟨reader, -, hturn⟩ | ⟨result, found, n, hturn, -⟩
  · rw [hturn]
    exact (or_iff_left fun ⟨hlt, hle, _⟩ ↦ absurd hle (not_le.mpr hlt)).symm
  · rw [hturn]
    exact Subscriber.caught_conclude

theorem cursor_le_turn (h : Delivered origin c s) (hc : c.Faithful) (now : Nat) :
    s.cursor ≤ (s.turn c.server now).cursor := by
  rcases h.turn_cases hc now with ⟨reader, -, hturn⟩ |
    ⟨result, found, n, hturn, hfound, hreceive, -⟩
  · rw [hturn]
  · rw [hturn, Subscriber.conclude, hreceive]
    exact (Replica.cursorAfter_take hc.records.sorted s.cursor n hfound).1

end Delivered

/-- What happens to a log that a subscriber reads. -/
inductive FeedStep where
  | append (readings : Nat → UInt64) (batch : List Fields)
  | trim (least : LogId)
  | setAvailable (available : Bool)
  | turn (now : Nat)

/-- A chronicle and a subscriber that reads its log. -/
structure Subscription where
  chronicle : Chronicle
  subscriber : Subscriber

namespace Subscription

/-- A live server before its first entry, and a subscriber that starts at a cursor. -/
def start (origin : LogId) (count block : Nat) : Subscription where
  chronicle := .start
  subscriber := { count, block, cursor := origin }

def step (w : Subscription) : FeedStep → Subscription
  | .append readings batch => { w with chronicle := (w.chronicle.append readings batch).2 }
  | .trim least => { w with chronicle := (w.chronicle.trim least).2 }
  | .setAvailable available => { w with chronicle := w.chronicle.setAvailable available }
  | .turn now => { w with subscriber := w.subscriber.turn w.chronicle.server now }

def run (w : Subscription) (steps : List FeedStep) : Subscription :=
  steps.foldl step w

/-- The record is faithful and the subscriber has been given what it should. -/
structure Sound (origin : LogId) (w : Subscription) : Prop where
  faithful : w.chronicle.Faithful
  delivered : Delivered origin w.chronicle w.subscriber

theorem sound_start (origin : LogId) (count block : Nat) :
    (start origin count block).Sound origin where
  faithful := Chronicle.faithful_start
  delivered := Delivered.start origin count block

variable {origin : LogId}

theorem history_step (w : Subscription) (op : FeedStep) :
    w.chronicle.history <+: (w.step op).chronicle.history := by
  cases op with
  | append readings batch => exact Chronicle.history_append
  | trim least => exact List.prefix_refl _
  | setAvailable available => exact List.prefix_refl _
  | turn now => exact List.prefix_refl _

theorem Sound.step {w : Subscription} (h : w.Sound origin) (op : FeedStep)
    (hroom : Entry.Roomy (w.step op).chronicle.history) : (w.step op).Sound origin := by
  cases op with
  | append readings batch =>
    have hfaithful := h.faithful.append hroom
    exact ⟨hfaithful,
      h.delivered.extend Chronicle.history_append hfaithful.records.ascending⟩
  | trim least =>
    have hfaithful := h.faithful.trim least
    exact ⟨hfaithful,
      h.delivered.extend (List.prefix_refl _) hfaithful.records.ascending⟩
  | setAvailable available =>
    have hfaithful := h.faithful.setAvailable available
    exact ⟨hfaithful,
      h.delivered.extend (List.prefix_refl _) hfaithful.records.ascending⟩
  | turn now => exact ⟨h.faithful, h.delivered.turn h.faithful now⟩

theorem Sound.run {w : Subscription} (h : w.Sound origin) (steps : List FeedStep)
    (hroom : Entry.Roomy (w.run steps).chronicle.history) : (w.run steps).Sound origin :=
  Chronicle.invariant_foldl (Sound origin) Entry.Roomy (fun hgrown hafter ↦ hafter.of_prefix hgrown)
    history_step (fun _ op hw ↦ hw.step op) h steps hroom

theorem Sound.cursor_le_step {w : Subscription} (h : w.Sound origin) (op : FeedStep) :
    w.subscriber.cursor ≤ (w.step op).subscriber.cursor := by
  cases op with
  | append readings batch => exact le_refl _
  | trim least => exact le_refl _
  | setAvailable available => exact le_refl _
  | turn now => exact h.delivered.cursor_le_turn h.faithful now

theorem Sound.cursor_le_run {w : Subscription} (h : w.Sound origin) (steps : List FeedStep)
    (hroom : Entry.Roomy (w.run steps).chronicle.history) :
    w.subscriber.cursor ≤ (w.run steps).subscriber.cursor := by
  let Ahead (v : Subscription) : Prop :=
    v.Sound origin ∧ w.subscriber.cursor ≤ v.subscriber.cursor
  have hstep : ∀ v op, Ahead v → Entry.Roomy (v.step op).chronicle.history →
      Ahead (v.step op) := by
    rintro v op ⟨hv, hle⟩ hnext
    exact ⟨hv.step op hnext, hle.trans (hv.cursor_le_step op)⟩
  exact (Chronicle.invariant_foldl Ahead Entry.Roomy (fun hgrown hafter ↦ hafter.of_prefix hgrown)
    history_step hstep ⟨h, le_refl _⟩ steps hroom).2

/-- However the calls fall between appends, trims and outages, and however much a call reads:
the cursor never goes back, a call that fails returns nothing and leaves the cursor, and what
has been returned are the updates of just those entries between the first cursor and the
present one that the log still kept when a call passed them, in the order of the ids. -/
theorem received_exactly_once (origin : LogId) (count block : Nat) (steps : List FeedStep)
    (hroom : Entry.Roomy ((start origin count block).run steps).chronicle.history) :
    let w := (start origin count block).run steps
    (∀ before, before <+: steps →
        ((start origin count block).run before).subscriber.cursor ≤ w.subscriber.cursor) ∧
      (∀ call ∈ w.subscriber.calls, ∀ e, call.result = .error e →
        call.returned = [] ∧ call.target = call.origin) ∧
      w.subscriber.received = Replica.updates (w.chronicle.history.filter fun e ↦
        origin < e.id ∧ e.id ≤ w.subscriber.cursor ∧ w.subscriber.Caught e) ∧
      w.chronicle.history.Pairwise fun a b ↦ a.id < b.id := by
  intro w
  have hsound : w.Sound origin := (sound_start origin count block).run steps hroom
  refine ⟨?_, hsound.delivered.idle, hsound.delivered.received, hsound.faithful.records.ascending⟩
  rintro before ⟨rest, rfl⟩
  have hsplit : w = ((start origin count block).run before).run rest := List.foldl_append
  have hgrown : ((start origin count block).run before).chronicle.history <+:
      w.chronicle.history := by
    rw [hsplit]
    exact Chronicle.history_foldl history_step _ rest
  have hbefore := (sound_start origin count block).run before (hroom.of_prefix hgrown)
  rw [hsplit]
  exact hbefore.cursor_le_run rest (hsplit ▸ hroom)

/-- A subscriber that reads one entry at a time, an entry without an update, an outage, and an
entry that is trimmed before it is read. -/
def lossy : List FeedStep :=
  [.append (fun _ ↦ 5) [[("activate", "a")], [("explode", "now")], [("activate", "b")]],
    .turn 0, .setAvailable false, .turn 1, .setAvailable true, .turn 2, .trim ⟨5, 3⟩, .turn 3,
    .append (fun _ ↦ 4) [[("deactivate", "c")]], .turn 4]

theorem received_lossy :
    Entry.Roomy ((start ⟨0, 0⟩ 1 10).run lossy).chronicle.history ∧
      ((start ⟨0, 0⟩ 1 10).run lossy).subscriber.received = [.activate "a", .deactivate "c"] ∧
      ((start ⟨0, 0⟩ 1 10).run lossy).subscriber.received =
        Replica.updates (((start ⟨0, 0⟩ 1 10).run lossy).chronicle.history.filter fun e ↦
          (⟨0, 0⟩ : LogId) < e.id ∧ e.id ≤ ((start ⟨0, 0⟩ 1 10).run lossy).subscriber.cursor ∧
            ((start ⟨0, 0⟩ 1 10).run lossy).subscriber.Caught e) := by
  have hroom : Entry.Roomy ((start ⟨0, 0⟩ 1 10).run lossy).chronicle.history := by
    decide +kernel
  refine ⟨hroom, by decide +kernel, ?_⟩
  exact (received_exactly_once ⟨0, 0⟩ 1 10 lossy hroom).2.2.1

end Subscription

end TicketPool

import Mathlib.Data.Fintype.Basic
import Mathlib.Data.List.Infix
import TicketPool.Proofs.Fleet.Member

/-!
# Agreement in a fleet

Any number of members read one log, and batches are sent to it between their steps.  As long
as nothing is trimmed that a member has not read, what a member has taken is always the
beginning of one common list: the updates that the history records.
-/

namespace TicketPool

variable {Cache : Type}

/-- A chronicle and the members that read its log. -/
structure Fleet (Cache : Type) where
  chronicle : Chronicle
  members : Cache → Member

inductive FleetStep (Cache : Type) where
  | send (readings : Nat → UInt64) (ticketTtl : Span) (now : UInt64) (updates : List Update)
  | setAvailable (available : Bool)
  | act (i : Cache) (op : MemberStep)

namespace Fleet

/-- A live server before its first entry, and members before their first calls. -/
def start (openings : Cache → Opening) : Fleet Cache where
  chronicle := .start
  members i := .fresh (openings i)

/-- The log has not lost an entry that a member has still to read. -/
def Unlost (w : Fleet Cache) : Prop :=
  ∀ e ∈ w.chronicle.history, e ∈ w.chronicle.server.log.entries.toList ∨
    ∀ i, e.id ≤ (w.members i).subscriber.cursor

instance [Fintype Cache] (w : Fleet Cache) : Decidable w.Unlost :=
  inferInstanceAs (Decidable (∀ _ ∈ _, _ ∨ _))

variable [DecidableEq Cache]

def step (codec : Codec) (w : Fleet Cache) : FleetStep Cache → Fleet Cache
  | .send readings ticketTtl now updates =>
    { w with chronicle := (w.chronicle.send readings ticketTtl now updates).2 }
  | .setAvailable available => { w with chronicle := w.chronicle.setAvailable available }
  | .act i op =>
    let member := (w.members i).step codec w.chronicle.server op
    { w with members := Function.update w.members i member }

def run (codec : Codec) (w : Fleet Cache) (steps : List (FleetStep Cache)) : Fleet Cache :=
  steps.foldl (step codec) w

/-- The record is faithful and every member keeps up with it. -/
structure Sound (codec : Codec) (openings : Cache → Opening) (w : Fleet Cache) : Prop where
  faithful : w.chronicle.Faithful
  keeping : ∀ i, Keeping codec (openings i) w.chronicle (w.members i)

variable {codec : Codec} {openings : Cache → Opening} {w : Fleet Cache}

theorem history_step (w : Fleet Cache) (op : FleetStep Cache) :
    w.chronicle.history <+: (w.step codec op).chronicle.history := by
  cases op with
  | send readings ticketTtl now updates => exact Chronicle.history_prefix_send _ _ _
  | setAvailable available => exact List.prefix_refl _
  | act i op => exact List.prefix_refl _

omit [DecidableEq Cache] in
theorem sound_start (codec : Codec) (openings : Cache → Opening) :
    (start openings).Sound codec openings where
  faithful := Chronicle.faithful_start
  keeping := fun i ↦ Keeping.fresh codec (openings i)

theorem Sound.step (h : w.Sound codec openings) (hunlost : w.Unlost) (op : FleetStep Cache)
    (hroom : Entry.Roomy (w.step codec op).chronicle.history) :
    (w.step codec op).Sound codec openings := by
  cases op with
  | send readings ticketTtl now updates =>
    have hfaithful := h.faithful.send ticketTtl now updates hroom
    exact ⟨hfaithful, fun i ↦
      (h.keeping i).extend (Chronicle.history_prefix_send _ _ _) hfaithful.records.ascending⟩
  | setAvailable available =>
    have hfaithful := h.faithful.setAvailable available
    exact ⟨hfaithful, fun i ↦
      (h.keeping i).extend (List.prefix_refl _) hfaithful.records.ascending⟩
  | act i op =>
    refine ⟨h.faithful, fun j ↦ ?_⟩
    by_cases hj : j = i
    · subst hj
      have hread : ∀ e ∈ w.chronicle.history, e ∈ w.chronicle.server.log.entries.toList ∨
          e.id ≤ (w.members j).subscriber.cursor :=
        fun e he ↦ (hunlost e he).imp_right fun hall ↦ hall j
      have hstep := (h.keeping j).step h.faithful hread op
      simpa [Fleet.step] using hstep
    · have hother := h.keeping j
      simpa [Fleet.step, hj] using hother

theorem Sound.run (h : w.Sound codec openings) (steps : List (FleetStep Cache))
    (hroom : Entry.Roomy (w.run codec steps).chronicle.history)
    (hunlost : ∀ before, before <+: steps → (w.run codec before).Unlost) :
    (w.run codec steps).Sound codec openings := by
  induction steps generalizing w with
  | nil => exact h
  | cons op rest ih =>
    have hgrown : (w.step codec op).chronicle.history <+:
        ((w.step codec op).run codec rest).chronicle.history :=
      Chronicle.history_foldl history_step (w.step codec op) rest
    have hnext : (w.step codec op).Sound codec openings :=
      h.step (hunlost [] List.nil_prefix) op (hroom.of_prefix hgrown)
    refine ih hnext hroom fun before hbefore ↦ ?_
    exact hunlost (op :: before) (List.prefix_cons_inj op |>.mpr hbefore)

/-- Whatever is sent and whenever the members act: each has taken a beginning of the updates
that the history records, and while it has not swept its store is what these updates make of the
empty one; so of two members one has taken a beginning of what the other has taken, and two that
have taken equally many and have not swept hold the same store. -/
theorem taken_prefix_agreement (codec : Codec) (openings : Cache → Opening)
    (steps : List (FleetStep Cache))
    (hroom : Entry.Roomy ((start openings).run codec steps).chronicle.history)
    (hbelow : ∀ i, ∀ e ∈ ((start openings).run codec steps).chronicle.history,
      (openings i).cursor < e.id)
    (hunlost : ∀ before, before <+: steps → ((start openings).run codec before).Unlost) :
    let w := (start openings).run codec steps
    w.chronicle.history.Pairwise (fun a b ↦ a.id < b.id) ∧
      (∀ i, (w.members i).taken <+: Replica.updates w.chronicle.history) ∧
      (∀ i j, (w.members i).taken <+: (w.members j).taken ∨
        (w.members j).taken <+: (w.members i).taken) ∧
      (∀ i, (w.members i).intake.tally.sweeps = 0 →
        (w.members i).intake.store = (w.members i).taken.foldl (Store.absorb codec) Store.empty) ∧
      ∀ i j, (w.members i).taken.length = (w.members j).taken.length →
        (w.members i).intake.tally.sweeps = 0 → (w.members j).intake.tally.sweeps = 0 →
          (w.members i).intake.store = (w.members j).intake.store := by
  intro w
  have h : w.Sound codec openings :=
    (sound_start codec openings).run steps hroom hunlost
  have htaken : ∀ i, (w.members i).taken <+: Replica.updates w.chronicle.history :=
    fun i ↦ (h.keeping i).taken_begins h.faithful (hbelow i)
  have hcompare : ∀ i j, (w.members i).taken <+: (w.members j).taken ∨
      (w.members j).taken <+: (w.members i).taken :=
    fun i j ↦ List.prefix_or_prefix_of_prefix (htaken i) (htaken j)
  refine ⟨h.faithful.records.ascending, htaken, hcompare, fun i ↦ (h.keeping i).replayed, ?_⟩
  intro i j hlength hi hj
  have hsame : (w.members i).taken = (w.members j).taken := by
    rcases hcompare i j with hij | hji
    · exact hij.eq_of_length hlength
    · exact (hji.eq_of_length hlength.symm).symm
  rw [(h.keeping i).replayed hi, (h.keeping j).replayed hj, hsame]

/-- One member reads an entry at a time, and the other reads all at once into a channel that
holds one update. -/
def contrast : Bool → Opening
  | true => ⟨⟨0, 0⟩, 1, 10, 4⟩
  | false => ⟨⟨7, 2⟩, 100, 10, 1⟩

/-- Two batches, with an update that is malformed and an outage between them. -/
def staggered : List (FleetStep Bool) :=
  [.send (fun _ ↦ 1700000000005) (.ofMillis 600000) 1700000000005
      [.createTicket "\x7b\"expiration_time\":\"2030-01-01T00:00:00Z\"\x7d", .activate "",
        .activate "1700000000005-0"],
    .act true (.turn 0), .act true .push, .act false (.turn 0), .act false .push,
    .act true (.drain 0 fun _ ↦ 0), .setAvailable false, .act true (.turn 1),
    .act false (.drain 9 fun _ ↦ 1), .act false .push, .setAvailable true,
    .send (fun _ ↦ 1700000000002) (.ofMillis 600000) 1700000000002
      [.deactivate "1700000000005-0"],
    .act true (.turn 2), .act true .push, .act true (.drain 9 fun _ ↦ 2),
    .act false (.drain 9 fun _ ↦ 3)]

theorem staggered_agreement :
    let w := (start contrast).run .json staggered
    Entry.Roomy w.chronicle.history ∧ (w.members true).taken.length = 2 ∧
      (w.members true).taken <+: Replica.updates w.chronicle.history ∧
      (w.members true).intake.store =
        (w.members true).taken.foldl (Store.absorb .json) Store.empty ∧
      (w.members true).intake.store = (w.members false).intake.store := by
  intro w
  have hroom : Entry.Roomy w.chronicle.history := by decide +kernel
  have hbelow : ∀ i, ∀ e ∈ w.chronicle.history, (contrast i).cursor < e.id := by
    decide +kernel
  have hunlost : ∀ before, before <+: staggered →
      ((start contrast).run .json before).Unlost := by
    have hall : ∀ before ∈ staggered.inits, ((start contrast).run .json before).Unlost := by
      decide +kernel
    exact fun before hbefore ↦ hall before ((List.mem_inits before staggered).mpr hbefore)
  have hlength : (w.members true).taken.length = 2 ∧ (w.members false).taken.length = 2 := by
    decide +kernel
  obtain ⟨-, htaken, -, hreplayed, hstore⟩ := taken_prefix_agreement .json contrast staggered
    hroom hbelow hunlost
  have hunswept : (w.members true).intake.tally.sweeps = 0 := by decide +kernel
  refine ⟨hroom, hlength.1, htaken true, hreplayed true hunswept, ?_⟩
  exact hstore true false (hlength.1.trans hlength.2.symm) hunswept (by decide +kernel)

end Fleet

end TicketPool

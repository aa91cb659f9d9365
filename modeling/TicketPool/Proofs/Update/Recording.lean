import Mathlib.Tactic.SplitIfs
import TicketPool.Entry

/-!
# Recording updates

An update can be written if it has the parts that its command needs.  The entry gives it back: a new
ticket with the id of the entry as its key, and the others without a part that their command
ignores.  So two updates that are written in the same way differ in nothing that counts.
-/

namespace TicketPool

def Command.NeedsKey (c : Command) : Prop :=
  c ≠ createTicket

def Command.NeedsValue (c : Command) : Prop :=
  c = createTicket ∨ c = assign

namespace Update

/-- The update has the parts that its command needs. -/
structure Complete (u : Update) : Prop where
  key : u.command.NeedsKey → u.key ≠ ""
  value : u.command.NeedsValue → u.value ≠ ""

/-- The first part that an update lacks, as an error.  A key is missed before a payload. -/
inductive Lacks (u : Update) : PoolError → Prop where
  | key (hneeds : u.command.NeedsKey) (hnone : u.key = "") : Lacks u .missingKey
  | ticket (hcreate : u.command = .createTicket) (hnone : u.value = "") : Lacks u .missingValue
  | assignment (hassign : u.command = .assign) (hkey : u.key ≠ "") (hnone : u.value = "") :
      Lacks u .missingAssignment

/-- The update that an entry with the given id gives back. -/
def recorded (id : LogId) (u : Update) : Update :=
  match u.command with
  | .createTicket => { u with key := id.text }
  | .activate | .deactivate => { u with value := "" }
  | .assign => u

/-- Two updates are the same but for a part that their command ignores. -/
structure Agrees (u v : Update) : Prop where
  command : u.command = v.command
  key : u.command.NeedsKey → u.key = v.key
  value : u.command.NeedsValue → u.value = v.value

variable {u v : Update} {fields : Fields} {e : PoolError}

theorem toFields_eq_error_iff : u.toFields = .error e ↔ u.Lacks e := by
  constructor
  · intro h
    cases hcommand : u.command with
    | createTicket =>
      simp only [toFields, hcommand] at h
      split_ifs at h with hnone
      cases h
      exact .ticket hcommand hnone
    | activate | deactivate =>
      simp only [toFields, hcommand] at h
      split_ifs at h with hnone
      cases h
      exact .key (by simp [Command.NeedsKey, hcommand]) hnone
    | assign =>
      simp only [toFields, hcommand] at h
      split_ifs at h with hkey hnone
      · cases h
        exact .key (by simp [Command.NeedsKey, hcommand]) hkey
      · cases h
        exact .assignment hcommand hkey hnone
  · rintro (⟨hneeds, hnone⟩ | ⟨hcreate, hnone⟩ | ⟨hassign, hkey, hnone⟩)
    · cases hcommand : u.command with
      | createTicket => exact absurd hcommand hneeds
      | activate | deactivate | assign => simp [toFields, hcommand, hnone]
    · simp [toFields, hcreate, hnone]
    · simp [toFields, hassign, hkey, hnone]

theorem complete_iff_not_lacks : u.Complete ↔ ∀ e, ¬ u.Lacks e := by
  constructor
  · rintro ⟨hkey, hvalue⟩ e (⟨hneeds, hnone⟩ | ⟨hcreate, hnone⟩ | ⟨hassign, -, hnone⟩)
    · exact hkey hneeds hnone
    · exact hvalue (.inl hcreate) hnone
    · exact hvalue (.inr hassign) hnone
  · intro h
    have hkey : u.command.NeedsKey → u.key ≠ "" := fun hneeds hnone ↦ h _ (.key hneeds hnone)
    refine ⟨hkey, ?_⟩
    rintro (hcreate | hassign) hnone
    · exact h _ (.ticket hcreate hnone)
    · have hneeds : u.command.NeedsKey := by simp [Command.NeedsKey, hassign]
      exact h _ (.assignment hassign (hkey hneeds) hnone)

theorem exists_toFields_iff : (∃ fields, u.toFields = .ok fields) ↔ u.Complete := by
  simp only [complete_iff_not_lacks, ← toFields_eq_error_iff]
  cases u.toFields <;> simp

theorem toFields_recorded (id : LogId) (u : Update) : (u.recorded id).toFields = u.toFields := by
  cases hcommand : u.command <;> simp [recorded, toFields, hcommand]

theorem toUpdate_of_toFields (h : u.toFields = .ok fields) (id : LogId) :
    Entry.toUpdate ⟨id, fields⟩ = .ok (u.recorded id) := by
  obtain ⟨command, key, value⟩ := u
  cases command <;> simp only [toFields] at h <;> split_ifs at h <;> cases h <;> rfl

theorem recorded_eq_iff (id : LogId) : u.recorded id = v.recorded id ↔ u.Agrees v := by
  have hcommand : ∀ w : Update, (w.recorded id).command = w.command := by
    intro w
    cases hw : w.command <;> simp [recorded, hw]
  constructor
  · intro h
    have hsame : u.command = v.command := by rw [← hcommand u, h, hcommand v]
    obtain ⟨command, key, value⟩ := u
    obtain ⟨_, key', value'⟩ := v
    cases hsame
    refine ⟨rfl, ?_, ?_⟩ <;> cases command <;>
      simp_all [recorded, Command.NeedsKey, Command.NeedsValue]
  · rintro ⟨hsame, hkey, hvalue⟩
    obtain ⟨command, key, value⟩ := u
    obtain ⟨_, key', value'⟩ := v
    cases hsame
    cases command <;> simp_all [recorded, Command.NeedsKey, Command.NeedsValue]

/-- The update can be written if it is complete, and fails for the first part that it lacks.  From
its fields it is given back, to be written in the same way again, and no update that differs in a
part that counts has the same fields. -/
theorem written_iff_complete (u : Update) :
    ((∃ fields, u.toFields = .ok fields) ↔ u.Complete) ∧
    (∀ e, u.toFields = .error e ↔ u.Lacks e) ∧
    ∀ fields, u.toFields = .ok fields →
      (∀ id, Entry.toUpdate ⟨id, fields⟩ = .ok (u.recorded id) ∧
        (u.recorded id).toFields = .ok fields) ∧
      ∀ v : Update, v.toFields = .ok fields ↔ u.Agrees v := by
  refine ⟨exists_toFields_iff, fun e ↦ toFields_eq_error_iff, ?_⟩
  intro fields hfields
  have hback : ∀ id, Entry.toUpdate ⟨id, fields⟩ = .ok (u.recorded id) :=
    toUpdate_of_toFields hfields
  refine ⟨fun id ↦ ⟨hback id, (toFields_recorded id u).trans hfields⟩, ?_⟩
  intro v
  have id : LogId := default
  rw [← recorded_eq_iff id]
  constructor
  · intro hsame
    exact Except.ok.inj ((hback id).symm.trans (toUpdate_of_toFields hsame id))
  · intro hsame
    rw [← toFields_recorded id v, ← hsame, toFields_recorded, hfields]

/-- A key that is named like a field, and a payload that an activation ignores. -/
theorem leftover_ignored :
    let u : Update := ⟨.activate, "ticket", "left over"⟩
    u.toFields = .ok [("activate", "ticket")] ∧
      Entry.toUpdate ⟨⟨9, 9⟩, [("activate", "ticket")]⟩ = .ok (.activate "ticket") ∧
      (Update.activate "ticket").toFields = .ok [("activate", "ticket")] ∧
      u.Agrees (.activate "ticket") ∧ ¬ u.Agrees (.deactivate "ticket") := by
  intro u
  have hfields : u.toFields = .ok [("activate", "ticket")] := rfl
  obtain ⟨-, -, hwritten⟩ := written_iff_complete u
  obtain ⟨hback, hagrees⟩ := hwritten _ hfields
  obtain ⟨hupdate, hagain⟩ := hback ⟨9, 9⟩
  refine ⟨hfields, hupdate, hagain, (hagrees _).mp hagain, ?_⟩
  intro hsame
  have hdeactivate := (hagrees _).mpr hsame
  simp [toFields, deactivate] at hdeactivate

end Update

end TicketPool

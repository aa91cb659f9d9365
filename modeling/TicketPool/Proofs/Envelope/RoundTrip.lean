import TicketPool.Envelope
import TicketPool.Proofs.Ids.Order
import TicketPool.Proofs.Json.Records

/-!
# Envelopes that lose nothing

Updates, log ids and settings are read back from their texts as they were: keys and payloads with
any characters, ids up to the last one, sizes and spans over the whole range of their words.
-/

namespace TicketPool

open Json

theorem LogId.restores : Restores toTree ofDocument? := by
  intro id
  rw [ofDocument?, toTree, Document.string?_text, Option.bind_some, ofText?_text]

namespace Command

theorem ofName?_name (c : Command) : ofName? c.name = some c := by
  cases c <;> decide

theorem restores : Restores (fun c ↦ .text c.name) ofDocument? := by
  intro c
  change (Piece.string? (Piece.ofString c.name)).bind ofName? = _
  rw [Piece.string?_ofString, Option.bind_some, ofName?_name]

end Command

theorem Update.restores : Restores toTree ofDocument? := by
  intro u
  have hcommand : Command.ofDocument? (Tree.text u.command.name).document = some u.command :=
    Command.restores u.command
  rw [ofDocument?, toTree, Document.fields?_dict]
  · simp [Document.required?_cons, hcommand, Document.string?_text]
  · rfl
  · decide

example :
    let text := "\x7b\"command\":\"Assign\",\"key\":\"1-0\",\"value\":\"\\\"a\\u001f☃\"\x7d"
    Update.encode (.assign "1-0" "\"a\u001f☃") = text ∧
      Update.decode? text = some (.assign "1-0" "\"a\u001f☃") := by
  decide +kernel

namespace Span

theorem ofParts?_self (d : Span) : ofParts? d.secs.toNat d.nanos = some d := by
  obtain ⟨secs, nanos, hnanos⟩ := d
  -- less than a second, so nothing is carried over
  have hcarry : nanos / 1000000000 = 0 := Nat.div_eq_of_lt hnanos
  simp [ofParts?, hcarry, Nat.mod_eq_of_lt hnanos, secs.toNat_lt]

theorem restores : Restores toTree ofDocument? := by
  intro d
  have hfits : d.nanos < UInt32.size := d.nanos_lt.trans (by decide)
  have hword : d.nanos < UInt64.size := hfits.trans (by decide)
  rw [ofDocument?, toTree, Document.fields?_dict]
  · simp only [Document.required?_cons, Document.word?_ofWord, Document.word?_int hword, reduceIte,
      String.reduceEq, Option.bind_eq_bind, Option.bind_some, UInt64.toNat_ofNat_of_lt' hword,
      hfits]
    exact ofParts?_self d
  · rfl
  · decide

end Span

theorem Settings.restores : Restores toTree ofDocument? := by
  intro s
  have hspan : ∀ d : Span, Span.ofDocument? d.toTree.document = some d := Span.restores
  rw [ofDocument?, toTree, Document.fields?_dict]
  · simp [Document.required?_cons, hspan, Document.word?_ofWord]
  · rfl
  · decide

/-- Updates, log ids and settings are read back from their texts as they were.  So settings that
have been read back have the same first flaw, if any, and keep and replay entries as long. -/
theorem envelope_restored :
    (∀ u : Update, Update.decode? u.encode = some u) ∧
    (∀ id : LogId, LogId.decode? id.encode = some id) ∧
    ∀ s : Settings, ∃ restored, Settings.decode? s.encode = some restored ∧ restored = s ∧
      restored.validate = s.validate ∧ restored.assignmentTtl = s.assignmentTtl ∧
      ∀ now, restored.initialCursor now = s.initialCursor now := by
  refine ⟨Update.restores.text, LogId.restores.text, fun s ↦ ?_⟩
  exact ⟨s, Settings.restores.text s, rfl, rfl, rfl, fun _ ↦ rfl⟩

end TicketPool

import TicketPool.Proofs.Json.Exact
import TicketPool.Proofs.Store.KeyView
import TicketPool.Proofs.Ticket.Payload

/-!
# Payloads that lose nothing

A ticket without doubles is read back from its payload as it was, up to the last nanosecond of its
expiration, and a store that is given the payload keeps it under the key of the update.  The same
holds for assignments.
-/

namespace TicketPool

namespace Json

/-- A value that is read back as it is where an extension stands. -/
structure Value.IsPlain (v : Value) : Prop where
  integral : v.tree.Integral
  shallow : v.tree.depth ≤ extensionRoom

namespace Document

variable {α : Type}

theorem foldl_insert_toList (map : StringMap α) :
    map.toList.foldl (fun acc (key, value) ↦ acc.insert key value) ∅ = map := by
  rw [← Std.ExtTreeMap.ofList_eq_foldl]
  apply Std.ExtTreeMap.ext_getElem?
  intro key
  cases hkey : map[key]? with
  | none =>
    apply Std.ExtTreeMap.getElem?_ofList_of_contains_eq_false
    rw [Std.ExtTreeMap.map_fst_toList_eq_keys, Std.ExtTreeMap.contains_keys,
      Std.ExtTreeMap.contains_eq_isSome_getElem?, hkey]
    rfl
  | some a =>
    exact Std.ExtTreeMap.getElem?_ofList_of_mem Std.ReflCmp.compare_self
      map.distinct_keys_toList (Std.ExtTreeMap.mem_toList_iff_getElem?_eq_some.mpr hkey)

/-- A map is read back as it is if each of its values is. -/
theorem map?_ofMap {read : Document → Option α} {value : α → Tree} {map : StringMap α}
    (hread : ∀ (key : String) (a : α), map[key]? = some a → read (value a).document = some a) :
    (Tree.ofMap value map).document.map? read = some map := by
  rw [Tree.ofMap, Tree.document, map?, keyed?_memberDocuments, Option.bind_eq_bind,
    Option.bind_some, List.map_map, mapM_map_eq_some (h := id), List.map_id]
  · exact congrArg some (foldl_insert_toList map)
  · intro p hp
    have hvalue := hread p.1 p.2 (Std.ExtTreeMap.mem_toList_iff_getElem?_eq_some.mp hp)
    exact (congrArg (Option.map (p.1, ·)) hvalue).trans rfl

end Document

end Json

open Json

def PlainExtensions (extensions : StringMap Value) : Prop :=
  ∀ (key : String) (v : Value), extensions[key]? = some v → v.IsPlain

theorem PlainExtensions.extensions? {extensions : StringMap Value} (h : PlainExtensions extensions) :
    (Tree.ofMap Value.tree extensions).document.extensions? = some extensions := by
  apply Document.map?_ofMap
  intro key v hv
  exact Value.ofDocument?_document (h key v hv).integral (h key v hv).shallow

theorem Ticket.decode?_encode_eq_some {t : Ticket} (hdoubles : t.doubleArgs = ∅)
    (hextensions : PlainExtensions t.extensions) : decode? t.encode = some t := by
  have hstringArgs :
      (Tree.ofMap .text t.stringArgs).document.map? Document.string? = some t.stringArgs :=
    Document.map?_ofMap fun _ s _ ↦ Document.string?_text s
  have hdoubleArgs :
      (Tree.ofMap .ofDouble t.doubleArgs).document.map? Document.double? = some t.doubleArgs := by
    apply Document.map?_ofMap
    intro key x hx
    rw [hdoubles, Std.ExtTreeMap.getElem?_empty] at hx
    cases hx
  rw [decode?_encode, hstringArgs, hdoubleArgs, hextensions.extensions?]
  rfl

namespace Assignment

def fieldDocuments (a : Assignment) : List (String × Document) := [
  ("connection", (Tree.text a.connection).document),
  ("extensions", (Tree.ofMap Value.tree a.extensions).document)]

theorem fields?_toTree (a : Assignment) :
    a.toTree.document.fields? ["connection", "extensions"] true = some a.fieldDocuments := by
  refine Document.fields?_dict ?_ ?_ true
  · rfl
  · decide

theorem decode?_encode_eq_some {a : Assignment} (h : PlainExtensions a.extensions) :
    decode? a.encode = some a := by
  have hconnection : a.fieldDocuments.lookup "connection" =
      some (Tree.text a.connection).document := rfl
  have hextensions : a.fieldDocuments.lookup "extensions" =
      some (Tree.ofMap Value.tree a.extensions).document := rfl
  rw [decode?, encode, Tree.ofString?_print, Option.bind_some, ofDocument?, fields?_toTree]
  simp only [Document.optional?, Document.required?, hconnection, hextensions,
    Document.string?_text, h.extensions?, Option.bind_eq_bind, Option.bind_some, Option.pure_def]

end Assignment

namespace Store

variable {codec : Codec} {payload : String}

theorem apply_createTicket {t : Ticket} (h : codec.decodeTicket payload = .ok t) (s : Store)
    (key : String) : ∃ after, s.apply codec ⟨.createTicket, key, payload⟩ = .ok after ∧
      ∀ k, after.view k = if k = key then
        { s.view k with ticket := some { t with id := key }, marked := true } else s.view k := by
  refine ⟨s.performAll [.mark key, .putTicket key { t with id := key }], ?_, fun k ↦ ?_⟩
  · rw [apply, Update.writes, h]
    rfl
  · rw [view_performAll]
    by_cases hk : k = key
    · simp [KeyView.write, hk]
    · simp [KeyView.write, hk, Ne.symm hk]

theorem apply_assign {a : Assignment} (h : codec.decodeAssignment payload = .ok a) (s : Store)
    (key : String) : ∃ after, s.apply codec ⟨.assign, key, payload⟩ = .ok after ∧
      ∀ k, after.view k =
        if k = key then { s.view k with assignment := some a } else s.view k := by
  refine ⟨s.performAll [.putAssignment key a], ?_, fun k ↦ ?_⟩
  · rw [apply, Update.writes, h]
    rfl
  · rw [view_performAll]
    by_cases hk : k = key
    · simp [KeyView.write, hk]
    · simp [KeyView.write, hk, Ne.symm hk]

end Store

/-- A ticket without doubles and with plain extensions is read back as it was, and the store keeps it
as it was but for its id, which is the key.  An assignment with plain extensions is read back and
kept as it was. -/
theorem payload_restored :
    (∀ t : Ticket, t.doubleArgs = ∅ → PlainExtensions t.extensions →
      ∃ payload, Codec.json.encodeTicket t = .ok payload ∧
        Codec.json.decodeTicket payload = .ok t ∧
        ∀ (s : Store) (key : String), ∃ after,
          s.apply .json ⟨.createTicket, key, payload⟩ = .ok after ∧
          ∀ k, after.view k = if k = key then
            { s.view k with ticket := some { t with id := key }, marked := true } else s.view k) ∧
    (∀ a : Assignment, PlainExtensions a.extensions →
      ∃ payload, Codec.json.encodeAssignment a = .ok payload ∧
        Codec.json.decodeAssignment payload = .ok a ∧
        ∀ (s : Store) (key : String), ∃ after,
          s.apply .json ⟨.assign, key, payload⟩ = .ok after ∧
          ∀ k, after.view k =
            if k = key then { s.view k with assignment := some a } else s.view k) := by
  constructor
  · intro t hdoubles hextensions
    have hdecode : Codec.json.decodeTicket t.encode = .ok t := by
      simp only [Codec.json, Ticket.decode?_encode_eq_some hdoubles hextensions]
    exact ⟨t.encode, rfl, hdecode, Store.apply_createTicket hdecode⟩
  · intro a hextensions
    have hdecode : Codec.json.decodeAssignment a.encode = .ok a := by
      simp only [Codec.json, Assignment.decode?_encode_eq_some hextensions]
    exact ⟨a.encode, rfl, hdecode, Store.apply_assign hdecode⟩

/-- A value with the least and the greatest integer, nested in a list and a dictionary. -/
def nested : Value where
  tree := .dict [("least", .number (.int Number.least)),
    ("rest", .list [.number (.int Number.greatest), .null, .bool true, .text "\"\\\n☃"])]
  proper := by decide +kernel

theorem plainExtensions_nested : PlainExtensions ((∅ : StringMap Value).insert "x" nested) := by
  intro key v hv
  rw [Std.ExtTreeMap.getElem?_insert] at hv
  split at hv
  · cases hv
    exact ⟨⟨trivial, ⟨trivial, trivial, trivial, trivial, trivial⟩, trivial⟩, by decide⟩
  · rw [Std.ExtTreeMap.getElem?_empty] at hv
    cases hv

/-- A ticket that expires in a leap second of the first year, which has six digits and a sign. -/
def ancient : Ticket where
  id := "elsewhere"
  expiration := ⟨Instant.firstSecond + 59, 1999999999, by decide, by decide, by decide⟩
  tags := ["", "\u0000é"]
  stringArgs := (∅ : StringMap String).insert "" "\"key\":"
  doubleArgs := ∅
  extensions := (∅ : StringMap Value).insert "x" nested

theorem ancient_restored :
    (∃ payload after, Codec.json.encodeTicket ancient = .ok payload ∧
      Codec.json.decodeTicket payload = .ok ancient ∧
      Store.empty.apply .json ⟨.createTicket, "1-0", payload⟩ = .ok after ∧
      after.ticket? "1-0" = some { ancient with id := "1-0" }) ∧
    ∃ payload after, Codec.json.encodeAssignment ⟨"host", ancient.extensions⟩ = .ok payload ∧
      Codec.json.decodeAssignment payload = .ok ⟨"host", ancient.extensions⟩ ∧
      Store.empty.apply .json ⟨.assign, "1-0", payload⟩ = .ok after ∧
      after.assignment? "1-0" = some ⟨"host", ancient.extensions⟩ := by
  constructor
  · obtain ⟨payload, hencode, hdecode, hstore⟩ :=
      payload_restored.1 ancient rfl plainExtensions_nested
    obtain ⟨after, happly, hview⟩ := hstore Store.empty "1-0"
    exact ⟨payload, after, hencode, hdecode, happly, congrArg KeyView.ticket (hview "1-0")⟩
  · obtain ⟨payload, hencode, hdecode, hstore⟩ :=
      payload_restored.2 ⟨"host", ancient.extensions⟩ plainExtensions_nested
    obtain ⟨after, happly, hview⟩ := hstore Store.empty "1-0"
    exact ⟨payload, after, hencode, hdecode, happly, congrArg KeyView.assignment (hview "1-0")⟩

end TicketPool

import TicketPool.Entry
import TicketPool.Proofs.Json.Meaning
import TicketPool.Proofs.Json.Records
import TicketPool.Proofs.Time.Stamp
import TicketPool.Store
import TicketPool.Ticket

/-!
# Payloads of tickets

Every ticket has a payload, but not every payload can be read again.  A double that is not finite is
written as `null`, which is no double, and the reader refuses texts that are nested too deep.
-/

namespace TicketPool

namespace Json.Document

variable {α β : Type}

theorem isSome_mapM {f : α → Option β} {l : List α} :
    (l.mapM f).isSome = true ↔ ∀ a ∈ l, (f a).isSome = true := by
  induction l with
  | nil => simp
  | cons a rest ih =>
    rw [List.mapM_cons, List.forall_mem_cons, ← ih]
    cases f a <;> cases rest.mapM f <;> simp

theorem strings?_text (l : List String) :
    (Tree.list (l.map .text)).document.strings? = some l := by
  rw [Tree.document, strings?, Tree.itemDocuments_eq, List.map_map]
  exact (mapM_map_eq_some (h := id) fun s _ ↦ string?_text s).trans (congrArg some l.map_id)

theorem isSome_map?_dict (read : Document → Option α) (members : List (String × Tree)) :
    ((Tree.dict members).document.map? read).isSome = true ↔
      ∀ p ∈ members, (read p.2.document).isSome = true := by
  rw [Tree.document, map?, keyed?_memberDocuments]
  change (Option.bind _ (some ∘ _)).isSome = true ↔ _
  rw [← Option.map_eq_bind, Option.isSome_map, isSome_mapM, List.forall_mem_map]
  simp only [Option.isSome_map]

/-- A map is read back if each of its values is. -/
theorem isSome_map?_ofMap (read : Document → Option β) (value : α → Tree) (map : StringMap α) :
    ((Tree.ofMap value map).document.map? read).isSome = true ↔
      ∀ (key : String) (a : α), map[key]? = some a → (read (value a).document).isSome = true := by
  rw [Tree.ofMap, isSome_map?_dict]
  simp only [List.forall_mem_map, Prod.forall, Std.ExtTreeMap.mem_toList_iff_getElem?_eq_some]

theorem isSome_double?_ofDouble (x : Binary64) :
    (Tree.ofDouble x).document.double?.isSome = true ↔ x.isFinite = true := by
  rw [Tree.ofDouble]
  split_ifs with hx
  · have hproper : (Number.float x).Proper := hx
    simp [Tree.document, Document.double?, Number.number?_numeral_isSome hproper, hx]
  · simp [Tree.document, Document.double?, hx]

theorem isSome_value (room : Nat) (v : Value) :
    (Value.ofDocument? room v.tree.document).isSome = true ↔ v.tree.depth ≤ room := by
  rw [← Tree.isSome_ofDocument? v.proper, Value.ofDocument?]
  split <;> simp_all

end Json.Document

open Json

namespace Ticket

/-- Doubles are finite, and extensions leave room for the two dictionaries around them. -/
structure IsReadable (t : Ticket) : Prop where
  finite : ∀ (key : String) (x : Binary64), t.doubleArgs[key]? = some x → x.isFinite = true
  shallow : ∀ (key : String) (v : Value), t.extensions[key]? = some v → v.tree.depth ≤ extensionRoom

/-- The fields of a ticket as its payload gives them. -/
def fieldDocuments (t : Ticket) : List (String × Document) := [
  ("id", (Tree.text t.id).document),
  ("expiration_time", (Tree.text t.expiration.text).document),
  ("tags", (Tree.list (t.tags.map .text)).document),
  ("string_args", (Tree.ofMap .text t.stringArgs).document),
  ("double_args", (Tree.ofMap .ofDouble t.doubleArgs).document),
  ("extensions", (Tree.ofMap Value.tree t.extensions).document)]

theorem fields?_toTree (t : Ticket) :
    t.toTree.document.fields? fieldNames true = some t.fieldDocuments := by
  refine Document.fields?_dict ?_ ?_ true
  · rfl
  · decide

/-- Whether a payload can be read is up to the three maps. -/
theorem decode?_encode (t : Ticket) : decode? t.encode =
    ((Tree.ofMap .text t.stringArgs).document.map? Document.string?).bind fun stringArgs ↦
      ((Tree.ofMap .ofDouble t.doubleArgs).document.map? Document.double?).bind fun doubleArgs ↦
        (Tree.ofMap Value.tree t.extensions).document.extensions?.bind fun extensions ↦
          some ⟨t.id, t.expiration, t.tags, stringArgs, doubleArgs, extensions⟩ := by
  have hid : t.fieldDocuments.lookup "id" = some (Tree.text t.id).document := rfl
  have hexpiration : t.fieldDocuments.lookup "expiration_time" =
      some (Tree.text t.expiration.text).document := rfl
  have htags : t.fieldDocuments.lookup "tags" = some (Tree.list (t.tags.map .text)).document := rfl
  have hstrings : t.fieldDocuments.lookup "string_args" =
      some (Tree.ofMap .text t.stringArgs).document := rfl
  have hdoubles : t.fieldDocuments.lookup "double_args" =
      some (Tree.ofMap .ofDouble t.doubleArgs).document := rfl
  have hextensions : t.fieldDocuments.lookup "extensions" =
      some (Tree.ofMap Value.tree t.extensions).document := rfl
  rw [decode?, encode, Tree.ofString?_print, Option.bind_some, ofDocument?, fields?_toTree]
  simp only [Document.optional?, Document.required?, hid, hexpiration, htags, hstrings, hdoubles,
    hextensions, Document.instant?, Document.string?_text, Document.strings?_text,
    Instant.ofText?_text, Option.bind_eq_bind, Option.bind_some, Option.pure_def]

theorem isSome_decode?_encode (t : Ticket) : (decode? t.encode).isSome = true ↔ t.IsReadable := by
  have hstrings : ((Tree.ofMap .text t.stringArgs).document.map? Document.string?).isSome = true :=
    (Document.isSome_map?_ofMap _ _ _).mpr fun _ s _ ↦ by
      rw [Document.string?_text, Option.isSome_some]
  have hdoubles := Document.isSome_map?_ofMap Document.double? .ofDouble t.doubleArgs
  have hextensions :=
    Document.isSome_map?_ofMap (Value.ofDocument? extensionRoom) Value.tree t.extensions
  simp only [Document.isSome_double?_ofDouble] at hdoubles
  simp only [Document.isSome_value] at hextensions
  have hreadable : t.IsReadable ↔
      ((Tree.ofMap .ofDouble t.doubleArgs).document.map? Document.double?).isSome = true ∧
        (Tree.ofMap Value.tree t.extensions).document.extensions?.isSome = true := by
    rw [Document.extensions?, hdoubles, hextensions]
    exact ⟨fun h ↦ ⟨h.finite, h.shallow⟩, fun h ↦ ⟨h.1, h.2⟩⟩
  obtain ⟨stringArgs, hread⟩ := Option.isSome_iff_exists.mp hstrings
  rw [decode?_encode, hread, Option.bind_some, hreadable]
  cases (Tree.ofMap .ofDouble t.doubleArgs).document.map? Document.double? <;>
    cases (Tree.ofMap Value.tree t.extensions).document.extensions? <;> simp

theorem encode_ne_empty (t : Ticket) : t.encode ≠ "" := by
  intro hempty
  have hchars := congrArg String.toList hempty
  rw [encode, Tree.print, String.toList_ofList] at hchars
  exact absurd hchars (List.cons_ne_nil _ _)

theorem decodeTicket_of_none {payload : String} (h : decode? payload = none) :
    Codec.json.decodeTicket payload = .error (.decode "not a ticket") := by
  simp only [Codec.json, h]

theorem apply_of_decode_error {payload : String} {e : PoolError}
    (h : Codec.json.decodeTicket payload = .error e) (s : Store) (key : String) :
    s.apply Codec.json ⟨.createTicket, key, payload⟩ = .error e := by
  simp only [Store.apply, Update.writes, h]
  rfl

/-- A payload that the log accepts is stored as a ticket under the id that the log gives it if the
ticket is readable, and otherwise it is passed over. -/
theorem created_stored_iff (t : Ticket) (id : LogId) (s : Store) :
    Codec.json.encodeTicket t = .ok t.encode ∧
    (Update.createTicket t.encode).toFields = .ok [("ticket", t.encode)] ∧
    Entry.toUpdate ⟨id, [("ticket", t.encode)]⟩ = .ok ⟨.createTicket, id.text, t.encode⟩ ∧
    ((∃ stored, Codec.json.decodeTicket t.encode = .ok stored) ↔ t.IsReadable) ∧
    ((∃ after, s.apply Codec.json ⟨.createTicket, id.text, t.encode⟩ = .ok after ∧
      after.containsTicket id.text = true) ↔ t.IsReadable) := by
  have hfields : (Update.createTicket t.encode).toFields = .ok [("ticket", t.encode)] :=
    if_neg t.encode_ne_empty
  refine ⟨rfl, hfields, rfl, ?_, ?_⟩
  · rw [← isSome_decode?_encode]
    simp only [Codec.json]
    cases decode? t.encode <;> simp
  · rw [← isSome_decode?_encode]
    simp only [Store.apply, Update.writes, Codec.json]
    cases decode? t.encode with
    | none => simp [Except.map]
    | some stored => simp [Except.map, Store.performAll, Store.perform, Store.containsTicket]

/-- A ticket with an infinite argument. -/
def boundless : Ticket :=
  { Ticket.expiringAt Instant.latest with
    doubleArgs := (∅ : StringMap Binary64).insert "x" .infinity }

theorem boundless_not_stored :
    Codec.json.encodeTicket boundless = .ok boundless.encode ∧
    Codec.json.decodeTicket boundless.encode = .error (.decode "not a ticket") ∧
    Store.empty.apply Codec.json ⟨.createTicket, (LogId.mk 1 0).text, boundless.encode⟩ =
      .error (.decode "not a ticket") := by
  have hunreadable : ¬boundless.IsReadable := fun h ↦
    absurd (h.finite "x" .infinity Std.ExtTreeMap.getElem?_insert_self) (by decide)
  have hnone : decode? boundless.encode = none :=
    Option.not_isSome_iff_eq_none.mp ((isSome_decode?_encode boundless).not.mpr hunreadable)
  have herror := decodeTicket_of_none hnone
  exact ⟨rfl, herror, apply_of_decode_error herror _ _⟩

end Ticket

end TicketPool

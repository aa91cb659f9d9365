import TicketPool.Json.Fields
import TicketPool.Json.Printer
import TicketPool.PoolError
import TicketPool.Time.Span
import TicketPool.Time.Stamp

/-!
# Tickets and assignments

A ticket waits in the pool until it is matched, withdrawn or expired; an assignment tells
where a matched player connects.  The pool looks at a ticket's id and expiration only and
carries the rest unread.

Both travel through the log as JSON payloads.  A `Codec` turns them into text and back,
and `Codec.json` is the one in use.
-/

namespace TicketPool

/-- A ticket in the pool. -/
structure Ticket where
  id : String
  expiration : Instant
  tags : List String
  stringArgs : StringMap String
  doubleArgs : StringMap Binary64
  extensions : StringMap Json.Value
deriving DecidableEq

/-- Where a matched player connects. -/
structure Assignment where
  connection : String
  extensions : StringMap Json.Value
deriving DecidableEq

def Ticket.expiringAt (expiration : Instant) : Ticket where
  id := ""
  expiration := expiration
  tags := []
  stringArgs := ∅
  doubleArgs := ∅
  extensions := ∅

/-- Whether a ticket's own time is over: it still counts at the very instant. -/
def Ticket.isExpiredAt (t : Ticket) (now : Instant) : Bool :=
  t.expiration < now

/-- The instant a span from now, or the latest one. -/
def Instant.expiresIn (now : Instant) (ttl : Span) : Instant :=
  (now.later? ttl.secs.toNat ttl.nanos).getD latest

namespace Json

def Tree.ofMap {α : Type} (value : α → Tree) (map : StringMap α) : Tree :=
  .dict (map.toList.map fun (key, a) ↦ (key, value a))

/-- How deep lists and dictionaries may be nested in a text. -/
def nestingLimit : Nat :=
  127

/-- How deep they may be nested in a value two levels down, such as an extension. -/
def extensionRoom : Nat :=
  nestingLimit - 2

def Document.extensions? : Document → Option (StringMap Value) :=
  Document.map? (Value.ofDocument? extensionRoom)

def Document.instant? (d : Document) : Option Instant :=
  d.string?.bind Instant.ofText?

end Json

open Json

namespace Ticket

def toTree (t : Ticket) : Tree :=
  .dict [
    ("id", .text t.id),
    ("expiration_time", .text t.expiration.text),
    ("tags", .list (t.tags.map .text)),
    ("string_args", .ofMap .text t.stringArgs),
    ("double_args", .ofMap .ofDouble t.doubleArgs),
    ("extensions", .ofMap Value.tree t.extensions)]

/-- The names of the fields of a ticket, in order. -/
def fieldNames : List String :=
  ["id", "expiration_time", "tags", "string_args", "double_args", "extensions"]

/-- Reads a ticket.  Only the expiration must be given. -/
def ofDocument? (d : Document) : Option Ticket := do
  let fields ← d.fields? fieldNames true
  let id ← Document.optional? fields "id" "" Document.string?
  let expiration ← Document.required? fields "expiration_time" Document.instant?
  let tags ← Document.optional? fields "tags" [] Document.strings?
  let stringArgs ← Document.optional? fields "string_args" ∅ (Document.map? Document.string?)
  let doubleArgs ← Document.optional? fields "double_args" ∅ (Document.map? Document.double?)
  let extensions ← Document.optional? fields "extensions" ∅ Document.extensions?
  pure { id, expiration, tags, stringArgs, doubleArgs, extensions }

def encode (t : Ticket) : String :=
  t.toTree.print

def decode? (payload : String) : Option Ticket :=
  (Document.ofString? payload).bind ofDocument?

end Ticket

namespace Assignment

def ofConnection (connection : String) : Assignment :=
  ⟨connection, ∅⟩

def toTree (a : Assignment) : Tree :=
  .dict [("connection", .text a.connection), ("extensions", .ofMap Value.tree a.extensions)]

/-- Reads an assignment.  The connection must be given. -/
def ofDocument? (d : Document) : Option Assignment := do
  let fields ← d.fields? ["connection", "extensions"] true
  let connection ← Document.required? fields "connection" Document.string?
  let extensions ← Document.optional? fields "extensions" ∅ Document.extensions?
  pure { connection, extensions }

def encode (a : Assignment) : String :=
  a.toTree.print

def decode? (payload : String) : Option Assignment :=
  (Document.ofString? payload).bind ofDocument?

end Assignment

/-- How tickets and assignments are turned into payloads and back. -/
structure Codec where
  encodeTicket : Ticket → Except PoolError String
  decodeTicket : String → Except PoolError Ticket
  encodeAssignment : Assignment → Except PoolError String
  decodeAssignment : String → Except PoolError Assignment

/-- Payloads in JSON.  Every ticket and assignment has one. -/
def Codec.json : Codec where
  encodeTicket t := .ok t.encode
  decodeTicket payload :=
    match Ticket.decode? payload with
    | some t => .ok t
    | none => .error (.decode "not a ticket")
  encodeAssignment a := .ok a.encode
  decodeAssignment payload :=
    match Assignment.decode? payload with
    | some a => .ok a
    | none => .error (.decode "not an assignment")

end TicketPool

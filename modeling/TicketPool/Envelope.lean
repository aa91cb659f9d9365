import TicketPool.Settings
import TicketPool.Ticket
import TicketPool.Update

/-!
# Envelopes

The JSON forms of updates, log ids and settings.  An id is written as its text, a command
as its name, a span as its seconds and nanoseconds.
-/

namespace TicketPool

open Json

namespace LogId

def toTree (id : LogId) : Tree :=
  .text id.text

def ofDocument? (d : Document) : Option LogId :=
  d.string?.bind ofText?

def encode (id : LogId) : String :=
  id.toTree.print

def decode? (json : String) : Option LogId :=
  (Document.ofString? json).bind ofDocument?

end LogId

namespace Command

/-- Reads a command: its name, or a dictionary that gives its name the value `null`. -/
def ofDocument? : Document → Option Command
  | .text pieces => (Piece.string? pieces).bind ofName?
  | .dict [(pieces, .null)] => (Piece.string? pieces).bind ofName?
  | _ => none

end Command

namespace Update

def toTree (u : Update) : Tree :=
  .dict [("command", .text u.command.name), ("key", .text u.key), ("value", .text u.value)]

/-- Reads an update.  All fields must be given. -/
def ofDocument? (d : Document) : Option Update := do
  let fields ← d.fields? ["command", "key", "value"] true
  let command ← Document.required? fields "command" Command.ofDocument?
  let key ← Document.required? fields "key" Document.string?
  let value ← Document.required? fields "value" Document.string?
  pure { command, key, value }

def encode (u : Update) : String :=
  u.toTree.print

def decode? (json : String) : Option Update :=
  (Document.ofString? json).bind ofDocument?

end Update

namespace Span

def toTree (d : Span) : Tree :=
  .dict [("secs", .ofWord d.secs), ("nanos", .number (.int d.nanos))]

/-- Reads a span.  Both parts must be given and no other; nanoseconds of a second and
more are carried over. -/
def ofDocument? (d : Document) : Option Span := do
  let fields ← d.fields? ["secs", "nanos"] false
  let secs ← Document.required? fields "secs" Document.word?
  let nanos ← Document.required? fields "nanos" Document.word?
  if nanos.toNat < UInt32.size then ofParts? secs.toNat nanos.toNat else none

end Span

namespace Settings

def toTree (s : Settings) : Tree :=
  .dict [
    ("ticket_ttl", s.ticketTtl.toTree),
    ("assignment_additional_ttl", s.assignmentExtraTtl.toTree),
    ("outgoing_wait_timeout", s.outgoingWait.toTree),
    ("outgoing_max_batch_size", .ofWord s.maxBatch),
    ("request_queue_capacity", .ofWord s.queueCapacity),
    ("incoming_max_updates_per_poll", .ofWord s.maxUpdatesPerPoll),
    ("incoming_poll_wait_timeout", s.pollWait.toTree),
    ("incoming_apply_interval", s.applyInterval.toTree),
    ("apply_hold_timeout", s.holdTimeout.toTree)]

/-- The names of the fields of settings, in order. -/
def fieldNames : List String :=
  ["ticket_ttl", "assignment_additional_ttl", "outgoing_wait_timeout",
    "outgoing_max_batch_size", "request_queue_capacity", "incoming_max_updates_per_poll",
    "incoming_poll_wait_timeout", "incoming_apply_interval", "apply_hold_timeout"]

/-- Reads settings.  All fields must be given. -/
def ofDocument? (d : Document) : Option Settings := do
  let fields ← d.fields? fieldNames true
  let span name := Document.required? fields name Span.ofDocument?
  let word name := Document.required? fields name Document.word?
  pure {
    ticketTtl := ← span "ticket_ttl"
    assignmentExtraTtl := ← span "assignment_additional_ttl"
    outgoingWait := ← span "outgoing_wait_timeout"
    maxBatch := ← word "outgoing_max_batch_size"
    queueCapacity := ← word "request_queue_capacity"
    maxUpdatesPerPoll := ← word "incoming_max_updates_per_poll"
    pollWait := ← span "incoming_poll_wait_timeout"
    applyInterval := ← span "incoming_apply_interval"
    holdTimeout := ← span "apply_hold_timeout" }

def encode (s : Settings) : String :=
  s.toTree.print

def decode? (json : String) : Option Settings :=
  (Document.ofString? json).bind ofDocument?

end Settings

end TicketPool

import TicketPool.Ticket
import TicketPool.Update

/-!
# The store

The pool as one cache sees it: the tickets, the keys that are marked inactive, and the
assignments.  A ticket is active when it is stored and its key is not marked.

Every change is a list of single writes.  They are listed in the order in which readers
may see them: a new ticket is marked before it is stored, so it is never seen active by
mistake.
-/

namespace TicketPool

/-- The state of the pool. -/
structure Store where
  tickets : StringMap Ticket := ∅
  /-- The keys that are marked inactive. -/
  inactive : StringMap Unit := ∅
  assignments : StringMap Assignment := ∅
deriving DecidableEq

/-- A change to one entry of one map. -/
inductive Write where
  | mark (key : String)
  | unmark (key : String)
  | putTicket (key : String) (ticket : Ticket)
  | dropTicket (key : String)
  | putAssignment (key : String) (assignment : Assignment)
  | dropAssignment (key : String)
deriving DecidableEq

namespace Store

def empty : Store := {}

instance : Inhabited Store := ⟨empty⟩

def perform (s : Store) : Write → Store
  | .mark key => { s with inactive := s.inactive.insert key () }
  | .unmark key => { s with inactive := s.inactive.erase key }
  | .putTicket key ticket => { s with tickets := s.tickets.insert key ticket }
  | .dropTicket key => { s with tickets := s.tickets.erase key }
  | .putAssignment key assignment =>
    { s with assignments := s.assignments.insert key assignment }
  | .dropAssignment key => { s with assignments := s.assignments.erase key }

def performAll (s : Store) (writes : List Write) : Store :=
  writes.foldl perform s

end Store

/-- The writes of an update.  A ticket's id is the key of the update, whatever the payload
says.  A payload that cannot be decoded writes nothing. -/
def Update.writes (codec : Codec) (u : Update) : Except PoolError (List Write) :=
  match u.command with
  | .createTicket =>
    (codec.decodeTicket u.value).map fun ticket ↦
      [.mark u.key, .putTicket u.key { ticket with id := u.key }]
  | .activate => .ok [.unmark u.key]
  | .deactivate => .ok [.mark u.key]
  | .assign =>
    (codec.decodeAssignment u.value).map fun assignment ↦ [.putAssignment u.key assignment]

namespace Store

def apply (codec : Codec) (s : Store) (u : Update) : Except PoolError Store :=
  (u.writes codec).map s.performAll

def ticket? (s : Store) (key : String) : Option Ticket :=
  s.tickets[key]?

def assignment? (s : Store) (key : String) : Option Assignment :=
  s.assignments[key]?

def containsTicket (s : Store) (key : String) : Bool :=
  s.tickets.contains key

def isInactive (s : Store) (key : String) : Bool :=
  s.inactive.contains key

/-- Whether a ticket is stored under the key and may be matched. -/
def isActive (s : Store) (key : String) : Bool :=
  s.containsTicket key && !s.isInactive key

def inactiveKeys (s : Store) : List String :=
  s.inactive.toList.map (·.1)

/-- The tickets that may be matched, in the order of their ids. -/
def activeTickets (s : Store) : List Ticket :=
  ((s.tickets.toList.filter fun (key, _) ↦ !s.isInactive key).map (·.2)).mergeSort
    fun a b ↦ a.id ≤ b.id

end Store

end TicketPool

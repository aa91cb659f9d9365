import TicketPool.LogId
import TicketPool.PoolError

/-!
# Updates and responses

Every change to the pool is an update: a command, the key of a ticket, and a payload.
Creating a ticket needs no key, since the log gives out the ticket's id; activating and
withdrawing need no payload.  Each update that is sent gets a response of its own.
-/

namespace TicketPool

/-- What an update does. -/
inductive Command where
  | createTicket
  | activate
  | deactivate
  | assign
deriving DecidableEq, Repr

namespace Command

def all : List Command :=
  [createTicket, activate, deactivate, assign]

def name : Command → String
  | createTicket => "CreateTicket"
  | activate => "Activate"
  | deactivate => "Deactivate"
  | assign => "Assign"

def ofName? (name : String) : Option Command :=
  all.find? fun c ↦ c.name = name

def label : Command → String
  | createTicket => "CREATE_TICKET"
  | activate => "ACTIVATE"
  | deactivate => "DEACTIVATE"
  | assign => "ASSIGN"

end Command

/-- A change to the pool. -/
structure Update where
  command : Command
  key : String
  value : String
deriving DecidableEq, Repr

namespace Update

/-- Creates a ticket; the log will give out its key. -/
def createTicket (payload : String) : Update :=
  ⟨.createTicket, "", payload⟩

def activate (key : String) : Update :=
  ⟨.activate, key, ""⟩

def deactivate (key : String) : Update :=
  ⟨.deactivate, key, ""⟩

def assign (key payload : String) : Update :=
  ⟨.assign, key, payload⟩

end Update

/-- What became of an update: the id the log gave it, or its own key and an error. -/
structure Response where
  result : String
  error : Option PoolError
deriving DecidableEq, Repr

namespace Response

def ok (id : String) : Response :=
  ⟨id, none⟩

/-- The response to an update that is not in the log. -/
def failed (key : String) (error : PoolError) : Response :=
  ⟨key, some error⟩

def isOk (r : Response) : Bool :=
  r.error.isNone

/-- The id, or the error. -/
def toExcept (r : Response) : Except PoolError String :=
  match r.error with
  | none => .ok r.result
  | some error => .error error

end Response

end TicketPool

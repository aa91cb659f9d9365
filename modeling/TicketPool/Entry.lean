import TicketPool.Update

/-!
# Log entries

An entry of the log is an id and a list of named fields.  The name of the first field is
the command.  Creating a ticket has the payload as its only field, and its key is the id
that the log gives the entry; assigning has the payload in a field of its own.
-/

namespace TicketPool

/-- The named fields of an entry, in order. -/
abbrev Fields : Type :=
  List (String × String)

/-- An entry of the log. -/
structure Entry where
  id : LogId
  fields : Fields
deriving DecidableEq, Repr, Inhabited

/-- The fields of an update, unless it lacks a part that its command needs. -/
def Update.toFields (u : Update) : Except PoolError Fields :=
  match u.command with
  | .createTicket =>
    if u.value = "" then .error .missingValue else .ok [("ticket", u.value)]
  | .activate => if u.key = "" then .error .missingKey else .ok [("activate", u.key)]
  | .deactivate => if u.key = "" then .error .missingKey else .ok [("deactivate", u.key)]
  | .assign =>
    if u.key = "" then .error .missingKey
    else if u.value = "" then .error .missingAssignment
    else .ok [("assign", u.key), ("connection", u.value)]

/-- The update that an entry records.  Only the first field says what it does, and of
several connections the first counts. -/
def Entry.toUpdate (e : Entry) : Except PoolError Update :=
  match e.fields with
  | [] => .error (.invalidCommand "<empty entry>")
  | (name, value) :: rest =>
    if name = "ticket" then .ok ⟨.createTicket, e.id.text, value⟩
    else if name = "activate" then .ok (.activate value)
    else if name = "deactivate" then .ok (.deactivate value)
    else if name = "assign" then
      match rest.lookup "connection" with
      | some payload => .ok (.assign value payload)
      | none => .error .missingAssignment
    else .error (.invalidCommand name)

end TicketPool

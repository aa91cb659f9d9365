/-!
# What can go wrong

The causes of failure, and the text that describes each.  The number in a text names
the family of the cause: 1 for the update itself, 2 for the log, 3 for payloads, 4 for
ids, 5 for the queues, 9 for the rest.
-/

namespace TicketPool

/-- The causes of failure. -/
inductive PoolError where
  | missingKey
  | missingValue
  | missingAssignment
  | invalidCommand (name : String)
  | logUnavailable (reason : String)
  | batchWriteFailed (reason : String)
  | resultCountMismatch (sent received : Nat)
  | encode (reason : String)
  | decode (reason : String)
  | invalidId (id : String)
  | queueClosed
  | queueFull
  | responseDropped
  | internal (reason : String)
  | configuration (reason : String)
deriving DecidableEq, Repr

namespace PoolError

def message : PoolError → String
  | missingKey => "OMC_ERR_100: Missing ticket key"
  | missingValue => "OMC_ERR_101: No ticket data"
  | missingAssignment => "OMC_ERR_102: Missing assignment"
  | invalidCommand name => "OMC_ERR_103: Invalid command: " ++ name
  | logUnavailable reason => "OMC_ERR_200: Replication log unavailable: " ++ reason
  | batchWriteFailed reason => "OMC_ERR_201: Batch write failed: " ++ reason
  | resultCountMismatch sent received =>
    "OMC_ERR_202: Result count mismatch: sent " ++ toString sent ++ ", received "
      ++ toString received
  | encode reason => "OMC_ERR_300: Payload encode error: " ++ reason
  | decode reason => "OMC_ERR_301: Payload decode error: " ++ reason
  | invalidId id => "OMC_ERR_400: Invalid replication id: " ++ id
  | queueClosed => "OMC_ERR_500: Update queue closed"
  | queueFull => "OMC_ERR_501: Update queue full"
  | responseDropped => "OMC_ERR_502: Update response dropped"
  | internal reason => "OMC_ERR_900: Internal error: " ++ reason
  | configuration reason => "OMC_ERR_902: Configuration error: " ++ reason

end PoolError

end TicketPool

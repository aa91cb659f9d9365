import TicketPool.PoolError

/-!
# Where log lines go

A process has at most one subscriber for the lines that caches log.
-/

namespace TicketPool.Telemetry

/-- Installs a subscriber, unless there is one. -/
def install (installed : Bool) : Except PoolError Unit :=
  if installed then
    .error (.internal <|
      "tracing subscriber: a global default trace dispatcher has already been set")
  else .ok ()

end TicketPool.Telemetry

import TicketPool.Cluster
import TicketPool.Envelope
import TicketPool.Proofs.Envelope.RoundTrip
import TicketPool.Proofs.Fleet.Agreement
import TicketPool.Proofs.Ids.Drawing
import TicketPool.Proofs.Ids.Grammar
import TicketPool.Proofs.Ids.Shape
import TicketPool.Proofs.Log.Waiting
import TicketPool.Proofs.Node.Turns
import TicketPool.Proofs.Replica.EmptyAnswers
import TicketPool.Proofs.Replica.Horizon
import TicketPool.Proofs.Replica.Sending
import TicketPool.Proofs.Replica.Trimming
import TicketPool.Proofs.Store.ActivePool
import TicketPool.Proofs.Store.Deferral
import TicketPool.Proofs.Store.Fingerprint
import TicketPool.Proofs.Store.Interruption
import TicketPool.Proofs.Store.Locality
import TicketPool.Proofs.Store.Sweeping
import TicketPool.Proofs.Ticket.RoundTrip
import TicketPool.Proofs.Update.Recording
import TicketPool.Telemetry

import Parley.Directory.Ledger
import Parley.Directory.Service

/-!
# Replicas

A replica answers relays from its ledger. A request that comes wrapped in an operation is queued, and its id is echoed; the
id of a queued operation is answered with the operation's result, wrapped likewise.
-/

namespace Parley.Directory.Replica

/-- What a replica makes of a request. -/
def handle (l : Ledger) (request : Message) : Ledger × Answer :=
  match request with
  | .queue id inner => (l.queue id inner, .reply (.process id))
  | .process id =>
    match l.process id with
    | (l, .ok result) => (l, .reply (.queue id result))
    | (l, .error e) => (l, .failed e)
  | .bye => (l, .hangUp)
  | other => (l, .failed (.unsupported other.label))

/-- Octets reach a replica on a connection. -/
def serve (sender : Endpoint) (l : Ledger) (c : Intake) (octets : Bytes) : Ledger × Intake × Bytes :=
  Directory.serve handle sender l c octets

end Parley.Directory.Replica

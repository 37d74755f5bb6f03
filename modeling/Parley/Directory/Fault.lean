import Parley.Address.Socket
import Parley.Message.Fault
import Parley.OperationId

/-!
# What can go wrong in the directory
-/

namespace Parley.Directory

/-- Why the directory cannot answer. -/
inductive Fault where
  /-- The host cannot listen or accept. -/
  | host (reason : String)
  /-- A frame is no message, or too long. -/
  | message (fault : Message.Fault)
  /-- A replica has closed its connection. -/
  | replicaClosed (addr : SocketAddress)
  /-- No replica gave a result. -/
  | noReplicas
  /-- The operation was not queued. -/
  | unknownOperation (id : OperationId)
  /-- The directory does not answer messages with this label. -/
  | unsupported (label : String)
  deriving DecidableEq, Repr

/-- The wording of a fault. -/
def Fault.text : Fault → String
  | .host reason => s!"I/O error: {reason}"
  | .message f => f.message
  | .replicaClosed addr => s!"replica {addr.render} closed the connection"
  | .noReplicas => "no directory replicas available"
  | .unknownOperation id => s!"unknown operation {id.render}"
  | .unsupported label => s!"unsupported directory request: {label}"

end Parley.Directory

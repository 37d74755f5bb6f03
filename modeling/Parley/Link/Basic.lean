import Parley.Address.Socket
import Parley.Cipher.Fault

/-!
# Connections between nodes

A connection is known by a number that is never used again. In `plain` mode messages travel as they are, which is how
members talk to the directory; in `sealed` mode they travel under the room key, which is how members talk to each other.
-/

namespace Parley

/-- The number of a connection. -/
abbrev ConnectionId := Nat

/-- How messages travel on a connection. -/
inductive LinkMode where
  /-- As plain text: between members and the directory. -/
  | plain
  /-- Under the room key: between members. -/
  | sealed
  deriving DecidableEq, Repr

/-- How a mode is shown. -/
def LinkMode.shown : LinkMode → String
  | plain => "server"
  | sealed => "peer"

namespace Link

/-- How a connection is named in reports. -/
def connectionName (id : ConnectionId) : String := s!"conn-{id}"

/-- What can go wrong with connections. -/
inductive Fault where
  /-- The other end has closed. -/
  | connectionClosed (reason : String)
  /-- No connection could be opened. -/
  | connectFailed (addr : SocketAddress) (reason : String)
  /-- An envelope could not be written. -/
  | sendFailed (id : ConnectionId) (cause : Message.Fault)
  /-- No connection could be accepted. -/
  | acceptFailed (reason : String)
  /-- There is no such connection. -/
  | unknownConnection (id : ConnectionId)
  /-- A sealed connection needs a room key. -/
  | noKey
  /-- A frame is no message. -/
  | message (fault : Message.Fault)
  /-- A message could not be sealed or opened. -/
  | cipher (fault : Cipher.Fault)
  deriving DecidableEq, Repr

/-- The wording of a fault. -/
def Fault.text : Fault → String
  | .connectionClosed reason => s!"connection closed: {reason}"
  | .connectFailed addr reason => s!"connect to {addr.render} failed: {reason}"
  | .sendFailed id cause => s!"send on {connectionName id} failed: {cause.message}"
  | .acceptFailed reason => s!"accept failed: {reason}"
  | .unknownConnection id => s!"unknown connection {connectionName id}"
  | .noKey => "no room key installed"
  | .message f => f.message
  | .cipher f => f.text

end Link
end Parley

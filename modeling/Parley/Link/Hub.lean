import Parley.Cipher.RoomKey
import Parley.Link.Basic
import Parley.SortedMap

/-!
# The connections of a node

A `Hub` keeps the open connections of one node and the room key for the sealed ones. Octets that come in on a connection
are cut into frames and opened; what comes of it is reported by events, in order. A connection ends once: when it is closed
here, which is not reported, or when the other end or a fault closes it, which is reported once.
-/

namespace Parley

/-- An open connection. -/
structure Connection where
  remote : SocketAddress
  mode : LinkMode
  /-- Octets that are no whole frame yet. -/
  unread : Bytes
  deriving DecidableEq, Repr

/-- The open connections of a node. -/
structure Hub where
  key : Option RoomKey
  connections : SortedMap ConnectionId Connection
  deriving DecidableEq, Repr

/-- What a hub reports. -/
inductive HubEvent where
  /-- Somebody has connected. -/
  | accepted (id : ConnectionId) (remote : SocketAddress)
  /-- A message has come in. -/
  | received (id : ConnectionId) (envelope : Envelope)
  /-- A connection has been lost, by a fault or because the other end closed it. -/
  | closed (id : ConnectionId) (fault : Option Link.Fault)
  deriving DecidableEq, Repr

namespace Hub

/-- No connections and no key. -/
def empty : Hub := ⟨none, .empty⟩

/-- Installs the room key, also for connections that are open already. -/
def setKey (h : Hub) (k : RoomKey) : Hub := { h with key := some k }

/-- Adds a connection under an id that was never used. One that was opened from the other end is reported. -/
def add (h : Hub) (id : ConnectionId) (remote : SocketAddress) (mode : LinkMode) (inbound : Bool) :
    Hub × List HubEvent :=
  ({ h with connections := h.connections.insert id ⟨remote, mode, []⟩ }, if inbound then [.accepted id remote] else [])

/-- Closes a connection, if it is open. -/
def close (h : Hub) (id : ConnectionId) : Hub := { h with connections := h.connections.erase id }

/-- Closes all connections. -/
def shutdown (h : Hub) : Hub := { h with connections := .empty }

/-- Drops a connection and reports it, if it is open. -/
def drop (h : Hub) (id : ConnectionId) (fault : Option Link.Fault) : Hub × List HubEvent :=
  if h.connections.contains id then (h.close id, [.closed id fault]) else (h, [])

/-- Opens what a frame carries, in the mode of its connection. -/
def readFrame (key : Option RoomKey) (mode : LinkMode) (f : Frame) : Except Link.Fault Envelope :=
  match mode with
  | .plain => (Envelope.ofFrame f).mapError .message
  | .sealed =>
    match Envelope.ofSealedFrame f with
    | .error e => .error (.message e)
    | .ok s =>
      match key with
      | none => .error .noKey
      | some k => (k.openEnvelope s).mapError .cipher

/-- The frame that carries an envelope, in the mode of its connection. -/
def writeFrame (key : Option RoomKey) (mode : LinkMode) (e : Envelope) : Except Link.Fault Frame :=
  match mode with
  | .plain => .ok e.frame
  | .sealed =>
    match key with
    | none => .error .noKey
    | some k => ((k.sealEnvelope e).map Envelope.frame).mapError .cipher

/-- Writes an envelope: the octets for the other end. A frame that cannot be written ends the connection. -/
def send (h : Hub) (id : ConnectionId) (e : Envelope) : Hub × List HubEvent × Except Link.Fault Bytes :=
  match h.connections.get? id with
  | none => (h, [], .error (.unknownConnection id))
  | some c =>
    match writeFrame h.key c.mode e with
    | .error f => (h, [], .error f)
    | .ok frame =>
      match frame.encode Frame.defaultLimit with
      | .ok octets => (h, [], .ok octets)
      | .error cause =>
        let (h, events) := h.drop id (some (.connectionClosed s!"send failed: {cause.message}"))
        (h, events, .error (.sendFailed id cause))

/-- Reports the messages in frames up to the first that cannot be opened, and its fault. -/
def readFrames (key : Option RoomKey) (mode : LinkMode) (id : ConnectionId) :
    List Frame → List HubEvent × Option Link.Fault
  | [] => ([], none)
  | f :: fs =>
    match readFrame key mode f with
    | .error e => ([], some e)
    | .ok envelope =>
      let (events, fault) := readFrames key mode id fs
      (.received id envelope :: events, fault)

/-- Octets come in on a connection. -/
def receive (h : Hub) (id : ConnectionId) (octets : Bytes) : Hub × List HubEvent :=
  match h.connections.get? id with
  | none => (h, [])
  | some c =>
    let batch := Frame.drain Frame.defaultLimit (c.unread ++ octets)
    let (events, fault) := readFrames h.key c.mode id batch.frames
    match fault.or (batch.fault.map .message) with
    | none => ({ h with connections := h.connections.insert id { c with unread := batch.rest } }, events)
    | some f => (h.close id, events ++ [.closed id (some f)])

/-- The fault of a stream that ends inside a frame. -/
def truncated : Message.Fault := .stream "bytes remaining on stream"

/-- The other end has closed a connection. -/
def finish (h : Hub) (id : ConnectionId) : Hub × List HubEvent :=
  match h.connections.get? id with
  | none => (h, [])
  | some c => h.drop id (if c.unread.isEmpty then none else some (.message truncated))

end Hub
end Parley

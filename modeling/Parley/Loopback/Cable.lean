import Parley.Link.Hub
import Parley.Loopback.Basic

/-!
# Two hubs in memory

Two hubs, one of which listens, and the connections between them. A plain stream can also be connected to the hub that
listens. What happens at the other end of a connection because of a step is the answer to that step; the near end then
learns of a connection that the far end has dropped.
-/

namespace Parley.Loopback

/-- The ends of a cable. -/
inductive Side where
  /-- The end that dials. -/
  | near
  /-- The end that listens. -/
  | far
  deriving DecidableEq, Repr

/-- The other end. -/
def Side.other : Side → Side
  | .near => .far
  | .far => .near

/-- A connection: its id at either end. A plain stream has no hub at its near end. -/
structure CableLine where
  near : Option ConnectionId
  far : ConnectionId
  deriving DecidableEq, Repr

/-- Two hubs and the connections between them, in the order in which they were opened. -/
structure Cable where
  network : Network
  mode : LinkMode
  near : Hub
  far : Hub
  lines : List CableLine
  isListening : Bool
  deriving DecidableEq, Repr

namespace Cable

/-- Two hubs without connections. -/
def start (network : Network) (mode : LinkMode) : Cable := ⟨network, mode, .empty, .empty, [], true⟩

/-- Where the hub at the far end listens. -/
def farAddr : SocketAddress := .v4 ⟨.loopback, 1⟩

/-- Where connections of the near end come from. -/
def nearAddr : SocketAddress := .v4 ⟨.loopback, 2⟩

/-- The hub at an end. -/
def hub (c : Cable) : Side → Hub
  | .near => c.near
  | .far => c.far

/-- Replaces the hub at an end. -/
def setHub (c : Cable) (s : Side) (h : Hub) : Cable :=
  match s with
  | .near => { c with near := h }
  | .far => { c with far := h }

/-- The id of a connection at an end. -/
def idAt (s : Side) (l : CableLine) : Option ConnectionId :=
  match s with
  | .near => l.near
  | .far => some l.far

/-- The id at an end of the connection with a number. -/
def idOf (c : Cable) (s : Side) (n : Nat) : Option ConnectionId := c.lines[n]?.bind (idAt s)

/-- An id that was never used. -/
def freshId (c : Cable) : ConnectionId := 2 * c.lines.length + 1

/-- Opens a connection; a plain stream has no hub at its near end. -/
def connect (c : Cable) (withHub : Bool) : Except Halt Cable :=
  if c.network.connects c.isListening then
    let id := c.freshId
    let (far, _) := c.far.add (id + 1) nearAddr c.mode true
    let near := if withHub then (c.near.add id farAddr c.mode false).1 else c.near
    .ok { c with near, far, lines := c.lines ++ [⟨if withHub then some id else none, id + 1⟩] }
  else .error .noConnection

/-- What comes of a dial to an address at which nobody listens. -/
def refusal : Link.Fault := .connectFailed (.v4 ⟨.loopback, 3⟩) "connection refused"

/-- An end learns that the other end of a connection has been closed. -/
def finish (c : Cable) (s : Side) (n : Nat) : Cable × List HubEvent :=
  match c.idOf s n with
  | none => (c, [])
  | some id =>
    let (h, events) := (c.hub s).finish id
    (c.setHub s h, events)

/-- Octets arrive at an end. If that end then drops the connection, the other end learns of it. -/
def arrive (c : Cable) (s : Side) (n : Nat) (octets : Bytes) : Cable × List HubEvent :=
  match c.idOf s n with
  | none => (c, [])
  | some id =>
    let (h, events) := (c.hub s).receive id octets
    let c := c.setHub s h
    if h.connections.contains id then (c, events) else ((c.finish s.other n).1, events)

/-- Sends an envelope from an end: what happens at the other end, or why it is not sent. A number that is not that of a
connection stands for an id that was never used. -/
def send (c : Cable) (s : Side) (n : Nat) (e : Envelope) : Cable × Except Link.Fault (List HubEvent) :=
  let id := (c.idOf s n).getD 0
  match (c.hub s).send id e with
  | (h, _, .ok octets) =>
    let (c, events) := (c.setHub s h).arrive s.other n octets
    (c, .ok events)
  | (h, _, .error f) =>
    let c := c.setHub s h
    if h.connections.contains id then (c, .error f) else ((c.finish s.other n).1, .error f)

/-- Closes a connection at an end: what happens at the other end. -/
def close (c : Cable) (s : Side) (n : Nat) : Cable × List HubEvent :=
  match c.idOf s n with
  | none => (c, [])
  | some id =>
    if (c.hub s).connections.contains id then (c.setHub s ((c.hub s).close id)).finish s.other n else (c, [])

/-- Closes all connections at an end, in order, and stops listening there. -/
def shutdown (c : Cable) (s : Side) : Cable × List HubEvent :=
  let c := if s = .far then { c with isListening := false } else c
  (List.range c.lines.length).foldl
    (fun (c, events) n => let (c, more) := c.close s n; (c, events ++ more)) (c, [])

/-- The number of the connection with an id at either end. -/
def numberOf (c : Cable) (id : ConnectionId) : Option Nat :=
  c.lines.findIdx? fun l => l.near = some id || l.far = id

end Cable
end Parley.Loopback

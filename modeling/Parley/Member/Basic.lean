import Parley.Cipher.RoomKey
import Parley.Election
import Parley.Event
import Parley.PeerTable
import Parley.Pending
import Parley.Ranking

/-!
# Members of a room

A `Member` is what one participant knows. It does no input or output of its own: what it is told changes it, and what has
to be done in return is a list of `Effect`s for whoever owns the connections. A connection is opened for a purpose
(`Role`), which is handed back once it is open or has failed.
-/

namespace Parley

/-- Who a message goes to. -/
inductive Recipient where
  /-- The other end of one connection. -/
  | connection (id : ConnectionId)
  /-- All members. -/
  | allPeers
  /-- All members but the one at the other end of a connection. -/
  | allPeersExcept (id : ConnectionId)
  /-- The directory. -/
  | directory
  deriving DecidableEq, Repr

/-- What a connection is opened for. -/
inductive Role where
  /-- Looking a room up in the directory. -/
  | discover
  /-- Registering a room with the directory. -/
  | advertise
  /-- Joining the room of a host. -/
  | roomHost (user : Identity)
  /-- Meeting a member that the host told of. -/
  | member (user : Identity)
  deriving DecidableEq, Repr

/-- How messages travel on a connection with a role. -/
def Role.mode : Role → LinkMode
  | discover | advertise => .plain
  | roomHost _ | member _ => .sealed

/-- What a member wants done. -/
inductive Effect where
  /-- Send a message. -/
  | send (recipient : Recipient) (message : Message)
  /-- Open a connection. -/
  | connect (addr : SocketAddress) (role : Role)
  /-- Close a connection. -/
  | disconnect (id : ConnectionId)
  /-- Report an event. -/
  | notify (event : Event)
  deriving DecidableEq, Repr

/-- What one participant knows. -/
structure Member where
  me : Identity
  directoryAddr : SocketAddress
  /-- The connection to the directory. -/
  directory : Option ConnectionId
  peers : PeerTable
  ranking : Ranking
  clock : Clock
  /-- Lines of chat that wait, with their senders. -/
  pending : Pending (Option Identity × Message)
  election : Election
  isHost : Bool
  /-- Where the host listens, if that is known. -/
  host : Option Endpoint
  roomToken : Option String
  /-- The room key, while in a room. -/
  key : Option RoomKey
  /-- Rooms that can be joined and have not been tried. -/
  candidates : List Identity
  deriving DecidableEq, Repr

namespace Member

/-- A member outside any room. -/
def outside (me : Identity) (directoryAddr : SocketAddress) : Member where
  me
  directoryAddr
  directory := none
  peers := .empty
  ranking := .alone me
  clock := .start
  pending := .empty
  election := .idle
  isHost := false
  host := none
  roomToken := none
  key := none
  candidates := []

/-- Whether a member is in a room. -/
def inRoom (m : Member) : Bool := m.key.isSome

/-- The connections that a message reaches now. -/
def resolve (m : Member) : Recipient → List ConnectionId
  | .connection id => [id]
  | .allPeers => m.peers.ids
  | .allPeersExcept skip => m.peers.ids.filter (· ≠ skip)
  | .directory => m.directory.toList

/-- What can be seen of a member. -/
structure Snapshot where
  name : String
  addr : Endpoint
  inRoom : Bool
  isHost : Bool
  inElection : Bool
  roomToken : Option String
  host : Option Endpoint
  clock : Clock
  ranking : List Endpoint
  peers : List Endpoint
  pending : Nat
  deriving DecidableEq, Repr

/-- What can be seen of a member. -/
def snapshot (m : Member) : Snapshot where
  name := m.me.name
  addr := m.me.addr
  inRoom := m.inRoom
  isHost := m.isHost
  inElection := m.election.active
  roomToken := m.roomToken
  host := m.host
  clock := m.clock
  ranking := m.ranking.users.map Identity.addr
  peers := m.peers.users.map Identity.addr
  pending := m.pending.size

/-- Why a member refuses a command. -/
inductive Fault where
  /-- The name cannot travel on the wire. -/
  | invalidName (name : String)
  /-- The address cannot be listened on. -/
  | bind (reason : String)
  /-- The member is in a room. -/
  | alreadyJoined
  /-- The member is in no room. -/
  | notJoined
  /-- A connection failed. -/
  | link (fault : Link.Fault)
  /-- The member has been shut down. -/
  | unavailable
  deriving DecidableEq, Repr

/-- The wording of a fault. -/
def Fault.text : Fault → String
  | .invalidName name => s!"invalid display name {Text.quoted name}"
  | .bind reason => s!"failed to bind peer listener: {reason}"
  | .alreadyJoined => "already in a room"
  | .notJoined => "not in a room"
  | .link f => f.text
  | .unavailable => "client is unavailable"

end Member
end Parley

import Parley.Loopback.Replica

/-!
# A relay in memory

A relay over replicas of given conduct, with numbered connections of members, who all connect from the host itself.
-/

namespace Parley.Loopback

open Directory

/-- What stands at an address that a relay is told to repeat operations at. -/
inductive Backend where
  /-- Nobody listens. -/
  | absent
  /-- Connections are accepted and closed at once. -/
  | drops
  /-- A replica, honest or not. -/
  | replica (conduct : Conduct)
  deriving DecidableEq, Repr

/-- A relay with the connections of members. -/
structure RelayHost where
  network : Network
  /-- All the backends that the relay was told of, as they were when it last reached them. -/
  backends : List Backend
  relay : Relay Conduct
  /-- How many operations have been named. -/
  named : Nat
  clients : SortedMap Nat ServerLine
  deriving DecidableEq, Repr

namespace RelayHost

/-- How often a relay repeats a request in memory before it counts as never answered. -/
def attempts : Nat := 64

/-- The address of the backend with a number. -/
def addressOf (n : Nat) : SocketAddress := .v4 ⟨.loopback, UInt16.ofNat (n + 1)⟩

/-- The connection to a backend, if it can be opened. -/
def link? (network : Network) (n : Nat) : Backend → Option (ReplicaLink Conduct)
  | .absent => none
  | .drops => if network.connects true then some ⟨addressOf n, .scripted .faithful 0, [], false⟩ else none
  | .replica c => if network.connects true then some ⟨addressOf n, c, [], true⟩ else none

/-- A relay that has been told of backends; those that cannot be reached are left out. -/
def start (network : Network) (backends : List Backend) : RelayHost :=
  let links := (backends.zipIdx.map fun (b, n) => link? network n b).filterMap id
  ⟨network, backends, .listening (.v4 ⟨.loopback, 0⟩) links, 0, .empty⟩

/-- The numbers of the backends that the relay repeats operations at. -/
def members (h : RelayHost) : List Nat :=
  (List.range h.backends.length).filter fun n => h.relay.replicas.any fun r => r.addr = addressOf n

/-- The id of the operation that is named next. -/
def nextId (h : RelayHost) : OperationId := .ofNat (h.named + 1)

/-- Whether a token belongs to a room that was registered by an operation of this relay. -/
def isMinted (h : RelayHost) (token : String) : Bool :=
  (List.range h.named).any fun n => String.ofList (OperationId.ofNat (n + 1)).simple = token

/-- How many rooms each honest replica knows, in the order in which the relay was told of them. -/
def rooms (h : RelayHost) : List Nat :=
  h.backends.filterMap fun
    | .replica c => c.rooms?
    | .absent | .drops => none

/-- Takes over what a relay and the replicas that it has reached have become. -/
def follow (h : RelayHost) (relay : Relay Conduct) : RelayHost :=
  let backends := h.backends.zipIdx.map fun (b, n) =>
    match b, relay.replicas.find? fun r => r.addr = addressOf n with
    | .replica _, some r => .replica r.far
    | b, _ => b
  { h with relay, backends }

/-- Takes a request through an operation, without a member. -/
def replicate (h : RelayHost) (request : Message) : Except Halt (RelayHost × Except Directory.Fault Message) :=
  match h.relay.replicate Conduct.react attempts h.nextId request with
  | some (relay, result) => .ok ({ h.follow relay with named := h.named + 1 }, result)
  | none => .error .nothingComes

/-- The connection of a member with a number, which is opened if it is new. -/
def line (h : RelayHost) (n : Nat) : Except Halt ServerLine :=
  match h.clients.get? n with
  | some l => .ok l
  | none => if h.network.connects true then .ok .fresh else .error .noConnection

/-- A member writes octets. Operations are named by counting them. -/
def write (h : RelayHost) (n : Nat) (octets : Bytes) : Except Halt RelayHost := do
  let l ← h.line n
  let handle := fun (s : Relay Conduct × Nat) (m : Message) =>
    let (relay, a) := s.1.handle Conduct.react attempts (.ofNat (s.2 + 1)) (.v4 ⟨.loopback, 0⟩) m
    ((relay, s.2 + 1), a)
  let ((relay, named), intake, replies) := serve handle h.relay.sender (h.relay, h.named) l.intake octets
  return { h.follow relay with named, clients := h.clients.insert n { l with intake, arrived := l.arrived ++ replies } }

/-- A member waits for a reply. -/
def read (h : RelayHost) (n : Nat) : Except Halt (RelayHost × List Arrival) := do
  let (l, found) ← (← h.line n).read 1
  return ({ h with clients := h.clients.insert n l }, found)

end RelayHost
end Parley.Loopback

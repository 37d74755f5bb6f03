import Parley.Directory.Service
import Parley.Link.Hub

/-!
# The relay

Members talk to the directory through a relay, which repeats their requests at every replica. An operation has two phases:
the request is queued at every replica, and then every replica is told to carry it out (`Relay.replicate`). A replica that
fails in either phase is dropped from the list. The result is that of the first replica, in list order, that has one.

In an `exchange` a request is sent until a reply echoes the id of the operation; replies that do not are passed over. What
a replica does with a request is a function `react` of the state of its end of the connection: it sends octets back, and
may hang up. An exchange ends without an answer if the replica neither replies nor hangs up, or never echoes the id.
-/

namespace Parley.Directory

/-- What the far end of a connection does with a frame: it sends octets, and may hang up after them. -/
structure Reaction where
  octets : Bytes
  hangsUp : Bool
  deriving DecidableEq, Repr

/-- A relay's connection to a replica. -/
structure ReplicaLink (σ : Type) where
  addr : SocketAddress
  /-- The state of the far end. -/
  far : σ
  /-- Octets that have come in and have not been read. -/
  unread : Bytes
  /-- Whether the far end has not hung up. -/
  isOpen : Bool
  deriving DecidableEq, Repr

/-- How an exchange with a replica ends. -/
inductive Exchange where
  /-- A reply echoes the id. -/
  | answered (reply : Message)
  /-- The replica failed. -/
  | failed (fault : Fault)
  /-- No reply comes, or none that echoes the id. -/
  | unanswered
  deriving DecidableEq, Repr

/-- The operation id that a reply echoes. -/
def echoedId? : Message → Option OperationId
  | .process id => some id
  | .queue id _ => some id
  | _ => none

namespace ReplicaLink

variable {σ : Type} (react : σ → Frame → σ × Reaction)

/-- Sends a frame. A far end that has hung up does not get it. -/
def deliver (r : ReplicaLink σ) (f : Frame) : ReplicaLink σ :=
  if r.isOpen then
    let (far, reaction) := react r.far f
    { r with far, unread := r.unread ++ reaction.octets, isOpen := !reaction.hangsUp }
  else r

/-- Reads the next reply: `none` if there is none yet. -/
def nextReply (r : ReplicaLink σ) : ReplicaLink σ × Option (Except Fault Message) :=
  match Frame.decode Frame.defaultLimit r.unread with
  | .error e => (r, some (.error (.message e)))
  | .ok (some (f, rest)) =>
    ({ r with unread := rest }, some (((Envelope.ofFrame f).map Envelope.message).mapError .message))
  | .ok none =>
    if r.isOpen then (r, none)
    else if r.unread.isEmpty then (r, some (.error (.replicaClosed r.addr)))
    else (r, some (.error (.message Hub.truncated)))

/-- Sends a request until a reply echoes the id, at most `attempts` times. -/
def exchange (sender : Endpoint) (request : Message) (id : OperationId) :
    (attempts : Nat) → ReplicaLink σ → ReplicaLink σ × Exchange
  | 0, r => (r, .unanswered)
  | attempts + 1, r =>
    let frame := Envelope.frame ⟨sender, request⟩
    match frame.encode Frame.defaultLimit with
    | .error e => (r, .failed (.message e))
    | .ok _ =>
      match (r.deliver react frame).nextReply with
      | (r, none) => (r, .unanswered)
      | (r, some (.error e)) => (r, .failed e)
      | (r, some (.ok reply)) =>
        if echoedId? reply = some id then (r, .answered reply) else exchange sender request id attempts r

end ReplicaLink

/-- A relay and its replicas. -/
structure Relay (σ : Type) where
  sender : Endpoint
  replicas : List (ReplicaLink σ)
  deriving DecidableEq, Repr

namespace Relay

variable {σ : Type} (react : σ → Frame → σ × Reaction)

/-- A relay that listens at an address, and the replicas that it has reached. -/
def listening (addr : SocketAddress) (replicas : List (ReplicaLink σ)) : Relay σ := ⟨addr.headerEndpoint, replicas⟩

/-- Sends a request to every replica and drops those that fail. The replies of the rest are in list order. There is no
result if an exchange ends without an answer. -/
def fanOut (r : Relay σ) (attempts : Nat) (request : Message) (id : OperationId) : Option (Relay σ × List Message) :=
  let results := r.replicas.map (ReplicaLink.exchange react r.sender request id attempts)
  if results.any fun e => e.2 = .unanswered then none
  else
    let kept := results.filterMap fun
      | (link, .answered reply) => some (link, reply)
      | _ => none
    some ({ r with replicas := kept.map Prod.fst }, kept.map Prod.snd)

/-- Takes a request through both phases of an operation. -/
def replicate (r : Relay σ) (attempts : Nat) (id : OperationId) (request : Message) :
    Option (Relay σ × Except Fault Message) := do
  let (r, _) ← r.fanOut react attempts (.queue id request) id
  let (r, replies) ← r.fanOut react attempts (.process id) id
  let result? := replies.findSome? fun
    | .queue _ inner => some inner
    | _ => none
  match result? with
  | some result => some (r, .ok result)
  | none => some (r, .error .noReplicas)

/-- How a member looks from outside: under the address that its connection comes from. -/
def observed (user : Identity) (remote : SocketAddress) : Identity :=
  match remote with
  | .v4 e => { user with addr := ⟨e.ip, user.addr.port⟩ }
  | .v6 _ _ _ => user

/-- What a relay makes of a request of a member. A request that it repeats is named by `id`. -/
def handle (r : Relay σ) (attempts : Nat) (id : OperationId) (remote : SocketAddress) (request : Message) :
    Relay σ × Answer :=
  match request with
  | .hello user => (r, .reply (.yourInfo (observed user remote)))
  | .hostRoom _ | .requestRoomList | .hostUpdated _ _ =>
    match r.replicate react attempts id request with
    | some (r, .ok result) => (r, .reply result)
    | some (r, .error e) => (r, .failed e)
    | none => (r, .silence)
  | .bye => (r, .hangUp)
  | other => (r, .failed (.unsupported other.label))

end Relay
end Parley.Directory

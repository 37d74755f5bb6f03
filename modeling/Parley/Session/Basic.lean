import Parley.Link.Hub
import Parley.Member.Step
import Parley.Settings

/-!
# Sessions

A session joins a member to its connections. It is given commands, the events of its hub, the outcomes of dials and the
ticks of a poll timer, one at a time, and carries the member's effects out in order. What reaches the world outside are
`Act`s: octets on connections, connections to close or to dial, events for the listener.

Dials run on their own: their outcomes come back at any later time. One that comes back while the member is in no room is
closed at once.
-/

namespace Parley

/-- A member with its connections. -/
structure Session where
  member : Member
  hub : Hub
  isRunning : Bool
  deriving DecidableEq, Repr

/-- What a session does to the world outside. -/
inductive Act where
  /-- Octets go out on a connection. -/
  | write (id : ConnectionId) (octets : Bytes)
  /-- A connection is closed. -/
  | close (id : ConnectionId)
  /-- A connection is dialled. -/
  | dial (addr : SocketAddress) (role : Role)
  /-- The listener is told of an event. -/
  | tell (event : Event)
  /-- The hub has an event for the session to handle later. -/
  | report (event : HubEvent)
  deriving DecidableEq, Repr

namespace Session

/-- Starts a session whose listener got the given port, if the name can travel on the wire. -/
def start (s : MemberSettings) (port : UInt16) : Except Member.Fault Session :=
  if Identity.isValidName s.name then
    .ok ⟨.outside ⟨s.name, ⟨s.listenAddr.ip, port⟩⟩ s.directoryAddr, .empty, true⟩
  else .error (.invalidName s.name)

/-! ## Carrying effects out -/

/-- Sends a message on one connection. -/
def sendTo (message : Message) (s : Session) (id : ConnectionId) : Session × List Act :=
  let (hub, events, result) := s.hub.send id ⟨s.member.me.addr, message⟩
  let done :=
    match result with
    | .ok octets => [.write id octets, .tell (.messageSent (s.member.peers.get? id) message)]
    | .error _ => []
  ({ s with hub }, done ++ events.map .report)

/-- Carries one effect out. -/
def perform (s : Session) (e : Effect) : Session × List Act :=
  match e with
  | .send recipient message =>
    (s.member.resolve recipient).foldl
      (fun (s, acts) id => let (s, more) := sendTo message s id; (s, acts ++ more)) (s, [])
  | .connect addr role => (s, [.dial addr role])
  | .disconnect id => ({ s with hub := s.hub.close id }, if s.hub.connections.contains id then [.close id] else [])
  | .notify event => (s, [.tell event])

/-- Carries effects out in order. -/
def performAll (s : Session) (effects : List Effect) : Session × List Act :=
  effects.foldl (fun (s, acts) e => let (s, more) := s.perform e; (s, acts ++ more)) (s, [])

/-- Takes over what a member has become, and carries its effects out. -/
def follow (s : Session) (m : Member × List Effect) : Session × List Act :=
  performAll { s with member := m.1 } m.2

/-! ## What can happen to a session -/

/-- What can happen to a session. -/
inductive Input where
  /-- Join the room of a passphrase. The directory is dialled meanwhile, with the given outcome. -/
  | join (passphrase : Bytes) (dialled : Except Link.Fault ConnectionId)
  /-- Send a line of chat. -/
  | chat (text : String)
  /-- Leave the room. -/
  | leave
  /-- Stop. -/
  | shutdown
  /-- A connection has been opened, by a dial or from outside. -/
  | opened (id : ConnectionId) (remote : SocketAddress) (mode : LinkMode)
  /-- The hub has an event. -/
  | event (event : HubEvent)
  /-- A dial has come to an end. -/
  | outcome (role : Role) (result : Except Link.Fault ConnectionId)
  /-- The poll timer ticks. -/
  | tick

/-- Joins a room: a member that is in none gets the key and looks the room up in the directory. If the directory cannot be
dialled, the member is in no room again. -/
def join (s : Session) (passphrase : Bytes) (dialled : Except Link.Fault ConnectionId) :
    Session × List Act × Option Member.Fault :=
  let key := RoomKey.ofPassphrase passphrase
  match s.member.beginJoin key with
  | .error f => (s, [], some f)
  | .ok m =>
    let hub := s.hub.setKey key
    match dialled with
    | .error f => ({ s with member := m.abortJoin, hub }, [], some (.link f))
    | .ok id =>
      let (hub, _) := hub.add id m.directoryAddr .plain false
      let (s, acts) := follow { s with hub } (m.onConnected id .discover)
      (s, acts, none)

/-- Handles an event of the hub. -/
def onEvent (s : Session) : HubEvent → Session × List Act
  | .accepted _ _ => (s, [])
  | .received id e => s.follow (s.member.onMessage id e)
  | .closed id _ => s.follow (s.member.onClosed id)

/-- Handles the outcome of a dial. -/
def onOutcome (s : Session) (role : Role) : Except Link.Fault ConnectionId → Session × List Act
  | .ok id => if s.member.inRoom then s.follow (s.member.onConnected id role) else s.perform (.disconnect id)
  | .error _ => if s.member.inRoom then s.follow (s.member.onConnectFailed role) else (s, [])

/-- Stops: the room is left, if the member is in one, and all connections are closed. -/
def shutdown (s : Session) : Session × List Act :=
  let (s, acts) := if s.member.inRoom then s.follow s.member.leave else (s, [])
  ({ s with hub := s.hub.shutdown, isRunning := false }, acts ++ s.hub.connections.keys.map .close)

/-- What comes of an input: the session afterwards, what it does, and why a command is refused. -/
def step (s : Session) (i : Input) : Session × List Act × Option Member.Fault :=
  let settled := fun (r : Session × List Act) => (r.1, r.2, none)
  if s.isRunning then
    match i with
    | .join passphrase dialled => s.join passphrase dialled
    | .chat text =>
      match s.member.sendChat text with
      | .ok m => settled (s.follow m)
      | .error f => (s, [], some f)
    | .leave => settled (s.follow s.member.leave)
    | .shutdown => settled s.shutdown
    | .opened id remote mode => ({ s with hub := (s.hub.add id remote mode false).1 }, [], none)
    | .event e => settled (s.onEvent e)
    | .outcome role result => settled (s.onOutcome role result)
    | .tick => settled (s.follow s.member.poll)
  else
    match i with
    | .join _ _ | .chat _ | .leave | .shutdown => (s, [], some .unavailable)
    | .opened _ _ _ | .event _ | .outcome _ _ | .tick => (s, [], none)

end Session
end Parley

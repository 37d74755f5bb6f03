import Parley.Loopback.Basic
import Parley.Session.Basic

/-!
# A session in memory

One member is run for real; the directory and the other members are played. They accept the connections that the member
opens, dial it, read what it writes and write to it. The connections have names. After every step the member is left to
itself until it has nothing more to do.
-/

namespace Parley.Loopback

/-- The played end of a connection. -/
structure PlayedEnd where
  mode : LinkMode
  /-- Octets that the member has written. -/
  arrived : Bytes
  /-- Whether the member has not closed the connection. -/
  isOpen : Bool
  deriving DecidableEq, Repr

/-- A member and those who play with it. -/
structure Stage where
  network : Network
  session : Session
  passphrase : Bytes
  directoryIsUp : Bool
  /-- The members that accept connections. -/
  members : List Endpoint
  /-- Whether the poll timer ticks. -/
  polls : Bool
  nextId : ConnectionId
  ends : SortedMap ConnectionId PlayedEnd
  /-- Connections that the member has opened and nobody has taken yet. -/
  opened : List (SocketAddress × ConnectionId)
  /-- The names of connections. -/
  names : List (String × ConnectionId)
  /-- What the listener was told. -/
  events : List Event

namespace Stage

/-- The key by which the members of the room read and write. -/
def key (s : Stage) : RoomKey := .ofPassphrase s.passphrase

/-- Where the directory listens. No member listens there. -/
def directoryAddr : SocketAddress := .v4 ⟨.loopback, 1⟩

/-- A member that has been started and has no connections. -/
def start (network : Network) (session : Session) (passphrase : Bytes) (members : List Endpoint) (polls : Bool) : Stage where
  network
  session
  passphrase
  directoryIsUp := true
  members
  polls
  nextId := 1
  ends := .empty
  opened := []
  names := []
  events := []

/-- Whether somebody listens at an address. -/
def listens (s : Stage) (addr : SocketAddress) : Bool :=
  if addr = s.session.member.directoryAddr then s.directoryIsUp
  else s.members.any fun e => addr = .v4 e

/-- The member dials an address: the id of the connection, or why there is none. -/
def dial (s : Stage) (addr : SocketAddress) (mode : LinkMode) : Stage × Except Link.Fault ConnectionId :=
  if s.network.connects (s.listens addr) then
    let id := s.nextId
    ({ s with nextId := id + 1, ends := s.ends.insert id ⟨mode, [], true⟩, opened := s.opened ++ [(addr, id)] }, .ok id)
  else (s, .error (.connectFailed addr "connection refused"))

/-- Carries out what the member does, and what follows from that, until nothing is left to do. -/
def settle : (fuel : Nat) → Stage → List Act → Stage
  | 0, s, _ => s
  | _, s, [] => s
  | fuel + 1, s, act :: acts =>
    match act with
    | .write id octets =>
      match s.ends.get? id with
      | some e => settle fuel { s with ends := s.ends.insert id { e with arrived := e.arrived ++ octets } } acts
      | none => settle fuel s acts
    | .close id =>
      match s.ends.get? id with
      | some e => settle fuel { s with ends := s.ends.insert id { e with isOpen := false } } acts
      | none => settle fuel s acts
    | .tell event => settle fuel { s with events := s.events ++ [event] } acts
    | .report event =>
      let (session, more, _) := s.session.step (.event event)
      settle fuel { s with session } (acts ++ more)
    | .dial addr role =>
      let (s, result) := s.dial addr role.mode
      let session :=
        match result with
        | .ok id => (s.session.step (.opened id addr role.mode)).1
        | .error _ => s.session
      let (session, more, _) := session.step (.outcome role result)
      settle fuel { s with session } (acts ++ more)

/-- How many acts a run in memory carries out at most after one step. -/
def patience : Nat := 100000

/-- Carries out what the member does, and lets its poll timer tick. -/
def rest (s : Stage) (acts : List Act) : Stage :=
  let s := settle patience s acts
  if s.polls then
    let (session, acts, _) := s.session.step .tick
    settle patience { s with session } acts
  else s

/-- Gives the member a command. -/
def command (s : Stage) (i : Session.Input) : Stage × Option Member.Fault :=
  let (session, acts, fault) := s.session.step i
  (rest { s with session } acts, fault)

/-- The member joins the room. -/
def join (s : Stage) : Stage × Option Member.Fault :=
  if s.session.isRunning && !s.session.member.inRoom then
    let (s, result) := s.dial s.session.member.directoryAddr .plain
    s.command (.join s.passphrase result)
  else s.command (.join s.passphrase (.error (.connectionClosed "")))

/-- Takes a connection that the member has opened to an address, and names it. -/
def accept (s : Stage) (addr : SocketAddress) (name : String) : Except Halt Stage :=
  match s.opened.find? fun o => o.1 = addr with
  | none => .error .nothingComes
  | some (_, id) => .ok { s with opened := s.opened.filter (fun o => o.2 ≠ id), names := (name, id) :: s.names }

/-- A played member dials the member that is run. -/
def dialIn (s : Stage) (name : String) : Except Halt Stage :=
  if s.network.connects s.session.isRunning then
    let id := s.nextId
    let (session, _, _) := s.session.step (.opened id (.v4 ⟨.loopback, 0⟩) .sealed)
    .ok { s with
      session
      nextId := id + 1
      ends := s.ends.insert id ⟨.sealed, [], true⟩
      names := (name, id) :: s.names }
  else .error .noConnection

/-- The connection with a name, and the played end of it. -/
def named (s : Stage) (name : String) : Except Halt (ConnectionId × PlayedEnd) :=
  match s.names.find? fun n => n.1 = name with
  | none => .error .nothingComes
  | some (_, id) =>
    match s.ends.get? id with
    | none => .error .nothingComes
    | some e => .ok (id, e)

/-- Waits for messages of the member on a connection. -/
def read (s : Stage) (name : String) (count : Nat) : Except Halt (Stage × List Arrival) := do
  let (id, e) ← s.named name
  let readFrame := fun f => (Hub.readFrame (some s.key) e.mode f).toOption
  let (found, left) ← await readFrame e.isOpen count e.arrived
  return ({ s with ends := s.ends.insert id { e with arrived := left } }, found)

/-- Octets reach the member on a connection. -/
def write (s : Stage) (name : String) (octets : Bytes) : Except Halt Stage := do
  let (id, _) ← s.named name
  let (hub, events) := s.session.hub.receive id octets
  let lost := events.filterMap fun
    | .closed id _ => some (Act.close id)
    | _ => none
  return rest { s with session := { s.session with hub } } (events.map .report ++ lost)

/-- A played node sends a message on a connection. -/
def say (s : Stage) (name : String) (e : Envelope) : Except Halt Stage := do
  let (_, playedEnd) ← s.named name
  match Hub.writeFrame (some s.key) playedEnd.mode e with
  | .error _ => .error .nothingComes
  | .ok f => s.write name (f.header ++ f.body)

/-- A played node closes a connection. -/
def hangUp (s : Stage) (name : String) : Except Halt Stage := do
  let (id, _) ← s.named name
  let (hub, events) := s.session.hub.finish id
  return rest { s with session := { s.session with hub } } (events.map .report)

/-- What can be seen of the member, and what the listener was told since this was last asked. -/
def look (s : Stage) : Stage × Except Member.Fault Member.Snapshot × List Event :=
  let seen := if s.session.isRunning then .ok s.session.member.snapshot else .error .unavailable
  ({ s with events := [] }, seen, s.events)

/-- Waits until the listener has been told of something. -/
def hear (s : Stage) (what : Event → Bool) : Except Halt Stage :=
  if s.events.any what then .ok s else .error .nothingComes

end Stage
end Parley.Loopback

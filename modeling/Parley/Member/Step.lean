import Parley.Member.Message

/-!
# The steps of a member

Everything that can happen to a member is an `Input`, and `Member.step` says what comes of it: the member afterwards, and
the effects, or why a command is refused. A refused command changes nothing.
-/

namespace Parley.Member

/-- Enters a room. The connection to the directory is opened next, for `Role.discover`. -/
def beginJoin (m : Member) (k : RoomKey) : Except Fault Member :=
  if m.inRoom then .error .alreadyJoined else .ok { m with key := some k, clock := .start }

/-- Takes `beginJoin` back, when the directory cannot be reached. -/
def abortJoin (m : Member) : Member := { m with key := none }

/-- Sends a line of chat to all members. -/
def sendChat (m : Member) (text : String) : Except Fault (Member × List Effect) :=
  if m.inRoom then
    let (timestamp, clock) := m.clock.stamp
    .ok ({ m with clock }, [.send .allPeers (.chat timestamp text)])
  else .error .notJoined

/-- Says goodbye to all members, closes all connections and forgets the room. -/
def leave (m : Member) : Member × List Effect :=
  let ids := m.peers.ids
  ({ m with
      directory := none
      peers := .empty
      ranking := m.ranking.reset
      clock := .start
      pending := .empty
      election := .idle
      isHost := false
      host := none
      roomToken := none
      key := none
      candidates := [] },
    ids.map (fun id => .send (.connection id) .bye) ++ ids.map .disconnect ++ m.directory.toList.map .disconnect)

/-- Takes up the lines of chat that the clock has reached. -/
def poll (m : Member) : Member × List Effect :=
  let (ready, pending, clock) := m.pending.drain m.clock
  ({ m with pending, clock }, ready.map fun e => .notify (.messageReceived e.2.1 e.2.2))

/-- A connection is open. -/
def onConnected (m : Member) (id : ConnectionId) : Role → Member × List Effect
  | .discover =>
    ({ m with directory := some id }, [.send .directory (.hello m.me), .send .directory .requestRoomList])
  | .advertise =>
    match m.advert? with
    | some advert => ({ m with directory := some id }, [.send .directory advert])
    | none => ({ m with directory := none }, [.disconnect id])
  | .roomHost host =>
    let m := { m with candidates := [], clock := .unsynced, host := some host.addr }
    let (m, displaced) := m.register id host
    ({ m with ranking := m.ranking.push host },
      displaced ++ [.send (.connection id) (.hello m.me), .notify (.peerJoined host), .notify (.directoryResult false)])
  | .member user =>
    let (m, displaced) := m.register id user
    ({ m with ranking := m.ranking.push user },
      displaced ++ [.send (.connection id) (.hello m.me), .notify (.peerJoined user)])

/-- A connection could not be opened. -/
def onConnectFailed (m : Member) : Role → Member × List Effect
  | .discover | .advertise => (m, [])
  | .roomHost _ => m.tryNextCandidate
  | .member user => ({ m with ranking := m.ranking.remove user.addr }, [])

/-- A connection was lost. -/
def onClosed (m : Member) (id : ConnectionId) : Member × List Effect :=
  if m.directory = some id then ({ m with directory := none }, [])
  else
    match m.peers.get? id with
    | some user => forget { m with peers := m.peers.erase id } user true
    | none => (m, [])

/-- What can happen to a member. -/
inductive Input where
  /-- Enter the room of a key. -/
  | join (key : RoomKey)
  /-- Take the last join back. -/
  | abortJoin
  /-- Send a line of chat. -/
  | chat (text : String)
  /-- Leave the room. -/
  | leave
  /-- Look at the lines that wait. -/
  | poll
  /-- A connection is open. -/
  | connected (id : ConnectionId) (role : Role)
  /-- A connection could not be opened. -/
  | connectFailed (role : Role)
  /-- A connection was lost. -/
  | closed (id : ConnectionId)
  /-- A message has come in. -/
  | received (id : ConnectionId) (envelope : Envelope)
  deriving DecidableEq, Repr

/-- What comes of an input: the member afterwards with the effects, or why a command is refused. -/
def step (m : Member) : Input → Except Fault (Member × List Effect)
  | .join k => (m.beginJoin k).map fun m => (m, [])
  | .abortJoin => .ok (m.abortJoin, [])
  | .chat text => m.sendChat text
  | .leave => .ok m.leave
  | .poll => .ok m.poll
  | .connected id role => .ok (m.onConnected id role)
  | .connectFailed role => .ok (m.onConnectFailed role)
  | .closed id => .ok (m.onClosed id)
  | .received id e => .ok (m.onMessage id e)

/-- The member after an input. A refused command changes nothing. -/
def after (m : Member) (i : Input) : Member :=
  match m.step i with
  | .ok (m', _) => m'
  | .error _ => m

/-- The effects of an input. A refused command has none. -/
def effectsOf (m : Member) (i : Input) : List Effect :=
  match m.step i with
  | .ok (_, effects) => effects
  | .error _ => []

end Parley.Member

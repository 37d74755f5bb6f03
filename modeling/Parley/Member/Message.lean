import Parley.Member.Election

/-!
# Messages to a member

What a member makes of each kind of message (`onMessage`). A line of chat is reported once it is taken up; every other
message is reported at once and then acted on. What only the directory may say is ignored when it comes from elsewhere.
-/

namespace Parley.Member

/-- Registers who is at the other end of a connection, and closes the connection that this displaces. -/
def register (m : Member) (id : ConnectionId) (user : Identity) : Member × List Effect :=
  ({ m with peers := m.peers.insert id user }, (m.peers.displaced? id user).toList.map .disconnect)

/-- Hosts a new room. -/
def becomeHost (m : Member) : Member × List Effect :=
  let m := { m with isHost := true, host := some m.me.addr, clock := .start }
  let advertise : Effect :=
    match m.directory, m.advert? with
    | some _, some advert => .send .directory advert
    | _, _ => m.connectDirectory
  (m, [advertise, .notify (.directoryResult true)])

/-- Asks for a connection to the next room that can be joined, or hosts a new one. -/
def tryNextCandidate (m : Member) : Member × List Effect :=
  match m.candidates with
  | host :: rest => ({ m with candidates := rest }, [.connect (.v4 host.addr) (.roomHost host)])
  | [] => m.becomeHost

/-- A line of chat: it is taken up or waits. -/
def onChat (m : Member) (sender : Option Identity) (timestamp : UInt64) (message : Message) : Member × List Effect :=
  match m.clock.observe timestamp with
  | (.deliver, clock) => ({ m with clock }, [.notify (.messageReceived sender message)])
  | (.defer, clock) => ({ m with clock, pending := m.pending.push timestamp (sender, message) }, [])

/-- Somebody says who they are. A host admits them: it tells the others, and tells them the ranking and the token. -/
def onHello (m : Member) (id : ConnectionId) (user : Identity) : Member × List Effect :=
  let known := (m.peers.get? id).any (Identity.same user)
  let (m, displaced) := m.register id user
  let joined := if known then [] else [.notify (.peerJoined user)]
  if m.isHost then
    let m := { m with ranking := m.ranking.push user }
    (m, displaced ++ joined ++
      [.send (.allPeersExcept id) (.userInfo user),
        .send (.connection id) (.hello m.me),
        .send (.connection id) (.rankOrder m.ranking.users),
        .send (.connection id) (.ack (m.roomToken.getD ""))])
  else (m, displaced ++ joined)

/-- The host tells of a member: connect to it, unless it is known. -/
def onUserInfo (m : Member) (user : Identity) : Member × List Effect :=
  if user.same m.me || (m.peers.find? user.addr).isSome then (m, [])
  else (m, [.connect (.v4 user.addr) (.member user)])

/-- The directory tells how this member looks from outside. -/
def setSelf (m : Member) (user : Identity) : Member :=
  { m with
    host := if m.host = some m.me.addr then some user.addr else m.host
    ranking := m.ranking.setSelf user
    me := user }

/-- The directory lists the rooms: those that the room key opens can be joined. -/
def onRoomList (m : Member) (entries : List Bytes) : Member × List Effect :=
  match m.key with
  | none => (m, [])
  | some k =>
    let hosts := entries.filterMap fun e => (k.openAdvert e).toOption
    tryNextCandidate { m with candidates := hosts.filter fun u => u.addr ≠ m.me.addr }

/-- An acknowledgement: a token is remembered, and the directory is no longer needed. -/
def onAck (m : Member) (info : String) : Member × List Effect :=
  let m := if info.isEmpty then m else { m with roomToken := some info }
  ({ m with directory := none }, m.directory.toList.map .disconnect)

/-- Somebody says that a member is gone. -/
def onDeadUser (m : Member) (user : Identity) : Member × List Effect :=
  if user.same m.me then (m, [])
  else
    match m.peers.find? user.addr with
    | some dead =>
      let known := (m.peers.get? dead).getD user
      let (m, effects) := forget { m with peers := m.peers.erase dead } known false
      (m, .disconnect dead :: effects)
    | none => if m.ranking.contains user.addr then m.forget user false else (m, [])

/-- The other end of a connection says goodbye. -/
def onBye (m : Member) (id : ConnectionId) : Member × List Effect :=
  match m.peers.get? id with
  | some user =>
    let (m, effects) := forget { m with peers := m.peers.erase id } user false
    (m, .disconnect id :: effects)
  | none => (m, [.disconnect id])

/-- What a member does about a message other than chat. -/
def act (m : Member) (id : ConnectionId) (e : Envelope) : Member × List Effect :=
  match e.message with
  | .hello user => m.onHello id user
  | .userInfo user => m.onUserInfo user
  | .yourInfo user => if m.directory = some id then (m.setSelf user, []) else (m, [])
  | .roomList entries => if m.directory = some id then m.onRoomList entries else (m, [])
  | .ack info => m.onAck info
  | .rankOrder users => ({ m with ranking := m.ranking.replace users m.me }, [])
  | .deadUser user => m.onDeadUser user
  | .bye => m.onBye id
  | .leaderVote => m.onVote
  | .leader => m.onLeader id e.sender
  | .chat _ _ | .hostRoom _ | .requestRoomList | .process _ | .queue _ _ | .hostUpdated _ _ | .sealed _ => (m, [])

/-- A message on a connection. -/
def onMessage (m : Member) (id : ConnectionId) (e : Envelope) : Member × List Effect :=
  let sender := m.peers.get? id
  match e.message with
  | .chat timestamp _ => m.onChat sender timestamp e.message
  | _ =>
    let (m', effects) := m.act id e
    (m', .notify (.messageReceived sender e.message) :: effects)

end Parley.Member

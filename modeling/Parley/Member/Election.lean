import Parley.Member.Basic

/-!
# Departures and elections

Losing the host starts an election (`startElection`): the vote goes to the first in rank. A member that gets votes from
half of the members it knows takes over (`becomeLeader`) and puts its own address into the directory.
-/

namespace Parley.Member

/-- What a member tells the directory of its room: a new room, or a new host for a room that has a token. -/
def advert? (m : Member) : Option Message :=
  m.key.map fun k =>
    match m.roomToken with
    | some token => .hostUpdated token (k.sealAdvert m.me)
    | none => .hostRoom (k.sealAdvert m.me)

/-- Opens a connection to the directory for advertising. -/
def connectDirectory (m : Member) : Effect := .connect m.directoryAddr .advertise

/-- Starts an election, unless one is running, and votes for the first in rank if that is another member and connected. -/
def startElection (m : Member) : Member × List Effect :=
  if m.election.active then (m, [])
  else
    let m := { m with election := m.election.start }
    if m.ranking.head.same m.me then (m, [])
    else
      match m.peers.find? m.ranking.head.addr with
      | some id => (m, [.send (.connection id) .leaderVote])
      | none => (m, [])

/-- Takes over as host after an election. -/
def becomeLeader (m : Member) : Member × List Effect :=
  let m := { m with election := .idle, isHost := true, host := some m.me.addr }
  let readvertise := if m.roomToken.isSome && m.directory.isNone then [m.connectDirectory] else []
  (m, [.send .allPeers .leader, .notify (.leaderElected m.me)] ++ readvertise)

/-- Drops a departed member from the ranking. A host that noticed the departure by itself announces it; losing the host
starts an election. -/
def forget (m : Member) (user : Identity) (announce : Bool) : Member × List Effect :=
  let m := { m with ranking := m.ranking.remove user.addr }
  let announcement := if announce && m.isHost then [.send .allPeers (.deadUser user)] else []
  let effects := .notify (.peerLeft user) :: announcement
  if !m.isHost && m.host = some user.addr then
    let (m, vote) := startElection { m with host := none }
    (m, effects ++ vote)
  else (m, effects)

/-- A vote for this member. -/
def onVote (m : Member) : Member × List Effect :=
  let (m, vote) := m.startElection
  let m := { m with election := m.election.countVote }
  if Election.isWon m.election.votes m.peers.size then
    let (m, effects) := m.becomeLeader
    (m, vote ++ effects)
  else (m, vote)

/-- The sender on a connection has won the election. -/
def onLeader (m : Member) (id : ConnectionId) (sender : Endpoint) : Member × List Effect :=
  let m := { m with election := .idle, isHost := false }
  match (m.peers.get? id).or (m.ranking.find? sender) with
  | some leader => ({ m with host := some leader.addr }, [.notify (.leaderElected leader)])
  | none => ({ m with host := some sender }, [])

end Parley.Member

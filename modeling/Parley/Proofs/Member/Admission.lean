import Mathlib.Data.List.Nodup
import Mathlib.Tactic.Common
import Parley.Member.Step
import Parley.Proofs.SortedMap

/-!
# What joining makes of members

What comes of the inputs that bring a newcomer and the members of a room together: an open connection (`step_connected`),
the newcomer's greeting (`step_hello_host` where it is admitted, `step_hello` elsewhere), and what
the host has to say to it (`step_rankOrder`, `step_ack`, `step_userInfo`).

They are stated for members that have no second connection to the one they meet, so that no connection is displaced
(`PeerTable.displaced?_eq_none`).
-/

namespace Parley

/-! ## Tables -/

namespace PeerTable

variable {t : PeerTable} {id : ConnectionId} {u : Identity}

/-- Where each address stands under one number, nothing is displaced. -/
theorem displaced?_eq_none (h : ∀ e ∈ t.byConnection.entries, e.2.addr = u.addr → e.1 = id) :
    t.displaced? id u = none := by
  rw [displaced?, Option.map_eq_none_iff, List.find?_eq_none]
  intro e he
  by_cases ha : e.2.addr = u.addr
  · simp [h e he ha]
  · simp [Identity.same, ha]

theorem insert_eq (h : ∀ e ∈ t.byConnection.entries, e.2.addr = u.addr → e.1 = id) :
    t.insert id u = ⟨t.byConnection.insert id u⟩ := by
  rw [insert, displaced?_eq_none h]

/-- A new number for a new address is one more entry. -/
theorem perm_insert (hid : id ∉ t.ids) (h : ∀ e ∈ t.byConnection.entries, e.2.addr ≠ u.addr) :
    (t.insert id u).byConnection.entries.Perm ((id, u) :: t.byConnection.entries) := by
  rw [insert_eq fun e he ha => absurd ha (h e he)]
  exact SortedMap.perm_insertEntry hid

theorem sorted_insert (hs : t.byConnection.Sorted) (h : ∀ e ∈ t.byConnection.entries, e.2.addr ≠ u.addr) :
    (t.insert id u).byConnection.Sorted := by
  rw [insert_eq fun e he ha => absurd ha (h e he)]
  exact hs.insert id u

/-- An entry that is there already changes nothing. -/
theorem insert_of_mem (hs : t.byConnection.Sorted) (hm : (id, u) ∈ t.byConnection.entries)
    (h : ∀ e ∈ t.byConnection.entries, e.2.addr = u.addr → e.1 = id) : t.insert id u = t := by
  rw [insert_eq h]
  exact congrArg PeerTable.mk (congrArg SortedMap.mk (SortedMap.insertEntry_of_mem hs hm))

/-- An address that no entry has. -/
theorem find?_eq_none {addr : Endpoint} (h : ∀ e ∈ t.byConnection.entries, e.2.addr ≠ addr) : t.find? addr = none := by
  rw [find?, Option.map_eq_none_iff, List.find?_eq_none]
  intro e he
  simpa using h e he

end PeerTable

/-! ## Inputs -/

namespace Member

variable {m : Member} {id : ConnectionId} {u : Identity} {a : Endpoint}

theorem register_eq (h : m.peers.displaced? id u = none) :
    m.register id u = ({ m with peers := m.peers.insert id u }, []) := by
  simp [register, h]

/-- The member has met `u` on a connection. -/
structure Meets (m m' : Member) (id : ConnectionId) (u : Identity) : Prop where
  me : m'.me = m.me
  isHost : m'.isHost = m.isHost
  directory : m'.directory = m.directory
  peers : m'.peers = m.peers.insert id u
  ranking : m'.ranking = m.ranking.push u

/-- The connection to the host of a room or to another member is open. -/
theorem step_connected (id : ConnectionId) {role : Role} (hr : role = .roomHost u ∨ role = .member u)
    (h : m.peers.displaced? id u = none) :
    ∃ (m' : Member) (news : List Event),
      m.step (.connected id role) = .ok (m', .send (.connection id) (.hello m.me) :: news.map .notify) ∧
        Meets m m' id u ∧ m'.host = if role = .roomHost u then some u.addr else m.host := by
  rcases hr with rfl | rfl
  · refine ⟨{ m with
        candidates := []
        clock := .unsynced
        host := some u.addr
        peers := m.peers.insert id u
        ranking := m.ranking.push u }, [.peerJoined u, .directoryResult false], ?_, ⟨rfl, rfl, rfl, rfl, rfl⟩, by simp⟩
    simp [step, onConnected, register, h]
  · refine ⟨{ m with peers := m.peers.insert id u, ranking := m.ranking.push u }, [.peerJoined u], ?_,
      ⟨rfl, rfl, rfl, rfl, rfl⟩, by simp⟩
    simp [step, onConnected, register, h]

/-- What a host says to a member that it admits, and to the others. -/
def admission (m : Member) (id : ConnectionId) (u : Identity) : List Effect :=
  [.send (.allPeersExcept id) (.userInfo u),
    .send (.connection id) (.hello m.me),
    .send (.connection id) (.rankOrder (m.ranking.push u).users),
    .send (.connection id) (.ack (m.roomToken.getD ""))]

/-- A greeting to a host. -/
theorem step_hello_host (hh : m.isHost = true) (h : m.peers.displaced? id u = none) :
    ∃ news : List Event, m.step (.received id ⟨a, .hello u⟩) =
      .ok ({ m with peers := m.peers.insert id u, ranking := m.ranking.push u },
        .notify (.messageReceived (m.peers.get? id) (.hello u)) :: news.map .notify ++ m.admission id u) ∧
      ∀ e ∈ news, e = .peerJoined u := by
  by_cases hk : (m.peers.get? id).any (Identity.same u) = true
  · exact ⟨[], by simp [step, onMessage, act, onHello, register_eq h, hh, hk, admission], by simp⟩
  · exact ⟨[.peerJoined u], by simp [step, onMessage, act, onHello, register_eq h, hh, hk, admission], by simp⟩

/-- A greeting to a member that is not host. -/
theorem step_hello (hh : m.isHost = false) (h : m.peers.displaced? id u = none) :
    ∃ news : List Event, m.step (.received id ⟨a, .hello u⟩) =
      .ok ({ m with peers := m.peers.insert id u }, news.map .notify) := by
  by_cases hk : (m.peers.get? id).any (Identity.same u) = true
  · exact ⟨[.messageReceived (m.peers.get? id) (.hello u)], by simp [step, onMessage, act, onHello, register_eq h, hh, hk]⟩
  · exact ⟨[.messageReceived (m.peers.get? id) (.hello u), .peerJoined u],
      by simp [step, onMessage, act, onHello, register_eq h, hh, hk]⟩

/-- The ranking from the host. -/
theorem step_rankOrder (m : Member) (id : ConnectionId) (a : Endpoint) (us : List Identity) :
    m.step (.received id ⟨a, .rankOrder us⟩) =
      .ok ({ m with ranking := m.ranking.replace us m.me },
        List.map .notify [.messageReceived (m.peers.get? id) (.rankOrder us)]) := rfl

/-- The token of the room, for a member that has left the directory. -/
theorem step_ack (hd : m.directory = none) (id : ConnectionId) (a : Endpoint) (info : String) :
    ∃ token, m.step (.received id ⟨a, .ack info⟩) =
      .ok ({ m with roomToken := token }, List.map .notify [.messageReceived (m.peers.get? id) (.ack info)]) := by
  obtain ⟨me, directoryAddr, directory, peers, ranking, clock, pending, election, isHost, host, token, key, candidates⟩ := m
  dsimp only at hd
  subst hd
  by_cases hi : info.isEmpty = true
  · exact ⟨token, by simp [step, onMessage, act, onAck, hi]⟩
  · exact ⟨some info, by simp [step, onMessage, act, onAck, hi]⟩

/-- News of another member that this one is not connected to. -/
theorem step_userInfo (hu : u.addr ≠ m.me.addr) (hf : m.peers.find? u.addr = none) :
    m.step (.received id ⟨a, .userInfo u⟩) =
      .ok (m, [.notify (.messageReceived (m.peers.get? id) (.userInfo u)), .connect (.v4 u.addr) (.member u)]) := by
  simp [step, onMessage, act, onUserInfo, Identity.same, hu, hf]

end Member
end Parley

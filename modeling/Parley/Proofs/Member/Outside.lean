import Parley.Proofs.Member.Reachable

/-!
# Outside any room

A member outside any room should have nothing of a room: it is no host and knows of none, no election is on, it has no
token, nobody is in its table, nothing waits, and it ranks itself alone (`Member.Blank`). A member that leaves is blank, and
so is one that was never in a room. But whoever connects to a member outside any room is heard all the same, and a greeting,
a vote or a victory then makes something of a room that there is not (`Member.vote_outside`). Which messages do so is said
exactly (`Member.Blank.received_iff`). A member that has heard no others outside since it last left is blank whenever it is
outside, as long as joining is taken back only before anything has come of it (`Member.Sheltered.blank`).
-/

namespace Parley.Member

/-- Nothing of a room. -/
structure Blank (m : Member) : Prop where
  isHost : m.isHost = false
  election : m.election.active = false
  host : m.host = none
  roomToken : m.roomToken = none
  peers : m.peers = .empty
  pending : m.pending = .empty
  ranking : m.ranking.order = [m.me.addr]

/-- A message that leaves a blank member blank. Greetings, votes and victories do not, nor do tokens, lines of chat ahead of
the clock and rankings that name somebody else. -/
def Harmless (m : Member) : Message → Prop
  | .hello _ | .leaderVote | .leader => False
  | .chat stamp _ => (m.clock.observe stamp).1 = .deliver
  | .ack info => info.isEmpty = true
  | .rankOrder users => ∀ u ∈ users, u.addr = m.me.addr
  | .userInfo _ | .yourInfo _ | .bye | .roomList _ | .hostRoom _ | .requestRoomList | .deadUser _ | .process _
  | .queue _ _ | .hostUpdated _ _ | .sealed _ => True

/-- Connections that were asked for come about, or fail, in a room only. -/
def Answered (m : Member) : Input → Prop
  | .connected _ _ | .connectFailed _ => m.inRoom = true
  | .join _ | .abortJoin | .chat _ | .leave | .poll | .closed _ | .received _ _ => True

/-- Outside any room nothing harmful is heard, and joining is not taken back inside. -/
def Spared (m : Member) : Input → Prop
  | .abortJoin => m.inRoom = false
  | .received _ e => m.inRoom = false → m.Harmless e.message
  | .join _ | .chat _ | .leave | .poll | .connected _ _ | .connectFailed _ | .closed _ => True

/-- The members that come of any inputs of which connections come about in a room only. -/
inductive Attended : Member → Prop
  | outside (me : Identity) (directoryAddr : SocketAddress) : Attended (outside me directoryAddr)
  | after {m : Member} (h : Attended m) {i : Input} (ha : m.Answered i) : Attended (m.after i)

/-- Those that are spared as well, since they last left. Joining is taken back at once if the directory cannot be
reached. -/
inductive Sheltered : Member → Prop
  | outside (me : Identity) (directoryAddr : SocketAddress) : Sheltered (outside me directoryAddr)
  | left {m : Member} (h : Reachable m) : Sheltered (m.after .leave)
  | after {m : Member} (h : Sheltered m) {i : Input} (ha : m.Answered i) (hs : m.Spared i) : Sheltered (m.after i)
  | unreachable {m : Member} (h : Sheltered m) (hr : m.inRoom = false) (k : RoomKey) :
    Sheltered ((m.after (.join k)).after .abortJoin)

variable {m : Member}

/-! ## Blank members -/

theorem blank_outside (me : Identity) (directoryAddr : SocketAddress) : (outside me directoryAddr).Blank :=
  ⟨rfl, rfl, rfl, rfl, rfl, rfl, rfl⟩

/-- A connection to the directory, the clock and a key do not count. -/
theorem Blank.update (b : m.Blank) (d : Option ConnectionId) (c : Clock) (k : Option RoomKey) :
    Blank { m with directory := d, clock := c, key := k } :=
  ⟨b.isHost, b.election, b.host, b.roomToken, b.peers, b.pending, b.ranking⟩

theorem Tidy.blank_leave (t : m.Tidy) : m.leave.1.Blank :=
  ⟨rfl, rfl, rfl, rfl, rfl, rfl, t.proper.order_reset.trans (congrArg (fun a => [a]) t.self)⟩

/-- Somebody who says who they are is in the table. -/
theorem get?_onHello (m : Member) (id : ConnectionId) (user : Identity) :
    (m.onHello id user).1.peers.get? id = some user := by
  have hp : (m.onHello id user).1.peers = m.peers.insert id user := by
    unfold onHello
    dsimp only
    split <;> rfl
  rw [hp]
  exact m.peers.get?_insert_self id user

/-- One vote is enough for a member that knows nobody. -/
theorem Blank.isHost_onVote (b : m.Blank) : m.onVote.1.isHost = true := by
  have hwon : Election.isWon m.election.start.countVote.votes m.peers.size = true := by
    rw [b.peers]
    simp [Election.isWon, Election.countVote, PeerTable.size, SortedMap.size, PeerTable.empty, SortedMap.empty]
  rw [onVote_fst, if_pos hwon]

theorem Blank.onDeadUser (b : m.Blank) (user : Identity) : m.onDeadUser user = (m, []) := by
  unfold Member.onDeadUser
  split
  · rfl
  · rename_i hu
    have hf : m.peers.find? user.addr = none := by rw [b.peers]; rfl
    have hc : m.ranking.contains user.addr = false := by
      rw [Bool.eq_false_iff, Ne, Ranking.contains_iff, b.ranking, List.mem_singleton]
      simpa [Identity.same] using hu
    rw [hf]
    simp [hc]

theorem Blank.setSelf (b : m.Blank) (hs : m.ranking.self = m.me.addr) (user : Identity) : (m.setSelf user).Blank where
  isHost := b.isHost
  election := b.election
  host := by simp [Member.setSelf, b.host]
  roomToken := b.roomToken
  peers := b.peers
  pending := b.pending
  ranking := Ranking.order_setSelf_of_alone (b.ranking.trans (congrArg (fun a => [a]) hs.symm)) user

theorem Blank.onChat_iff (b : m.Blank) (sender : Option Identity) (stamp : UInt64) (message : Message) :
    (m.onChat sender stamp message).1.Blank ↔ (m.clock.observe stamp).1 = .deliver := by
  unfold onChat
  split
  · rename_i c hc
    exact iff_of_true (b.update m.directory c m.key) (by rw [hc])
  · rename_i c hc
    refine iff_of_false (fun b' => ?_) (by simp [hc])
    have hp := b'.pending
    simp [Pending.push, b.pending, Pending.empty, Pending.insertEntry] at hp

theorem Blank.onAck_iff (b : m.Blank) (info : String) : (m.onAck info).1.Blank ↔ info.isEmpty = true := by
  unfold onAck
  dsimp only
  split
  · rename_i he
    exact iff_of_true (b.update none m.clock m.key) he
  · rename_i he
    refine iff_of_false (fun b' => ?_) he
    have ht := b'.roomToken
    simp at ht

theorem Blank.replace_iff (b : m.Blank) (users : List Identity) :
    Blank { m with ranking := m.ranking.replace users m.me } ↔ ∀ u ∈ users, u.addr = m.me.addr := by
  rw [← Ranking.order_replace_eq_singleton_iff (r := m.ranking)]
  exact ⟨fun b' => b'.ranking, fun h => ⟨b.isHost, b.election, b.host, b.roomToken, b.peers, b.pending, h⟩⟩

/-- What a member outside any room may hear if it is to stay blank. -/
theorem Blank.received_iff (b : m.Blank) (hr : m.inRoom = false) (hs : m.ranking.self = m.me.addr) (id : ConnectionId)
    (e : Envelope) : (m.after (.received id e)).Blank ↔ m.Harmless e.message := by
  obtain ⟨sender, message⟩ := e
  cases message with
  | hello user =>
    refine iff_of_false (fun b' => ?_) not_false
    have hpeers : (m.onHello id user).1.peers = .empty := b'.peers
    have hget := m.get?_onHello id user
    rw [hpeers] at hget
    cases hget
  | leaderVote =>
    refine iff_of_false (fun b' => ?_) not_false
    have hhost : m.onVote.1.isHost = false := b'.isHost
    rw [b.isHost_onVote] at hhost
    cases hhost
  | leader =>
    refine iff_of_false (fun b' => ?_) not_false
    obtain ⟨a, ha⟩ := onLeader_fst m id sender
    have hhost : (m.onLeader id sender).1.host = none := b'.host
    rw [ha] at hhost
    cases hhost
  | chat stamp text => exact b.onChat_iff _ stamp _
  | ack info => exact b.onAck_iff info
  | rankOrder users => exact b.replace_iff users
  | yourInfo user =>
    refine iff_of_true ?_ trivial
    show (m.act id ⟨sender, .yourInfo user⟩).1.Blank
    unfold act
    dsimp only
    split
    · exact b.setSelf hs user
    · exact b
  | roomList entries =>
    refine iff_of_true ?_ trivial
    have hkey : m.key = none := by simpa [inRoom] using hr
    show (m.act id ⟨sender, .roomList entries⟩).1.Blank
    unfold act onRoomList
    dsimp only
    rw [hkey]
    split <;> exact b
  | bye =>
    refine iff_of_true ?_ trivial
    have hpeer : m.peers.get? id = none := by rw [b.peers]; rfl
    show (m.onBye id).1.Blank
    unfold onBye
    rw [hpeer]
    exact b
  | deadUser user =>
    refine iff_of_true ?_ trivial
    show (m.onDeadUser user).1.Blank
    rw [b.onDeadUser]
    exact b
  | userInfo user =>
    refine iff_of_true ?_ trivial
    show (m.onUserInfo user).1.Blank
    unfold onUserInfo
    split <;> exact b
  | hostRoom | requestRoomList | process | queue | hostUpdated | sealed => exact iff_of_true b trivial

/-! ## Staying blank -/

/-- A blank member outside any room stays blank while it stays outside. -/
theorem Blank.after (b : m.Blank) (t : m.Tidy) (hr : m.inRoom = false) {i : Input} (hp : ¬ i.IsPassage)
    (ha : m.Answered i) (hs : m.Spared i) : (m.after i).Blank := by
  cases i with
  | join _ | abortJoin | leave => exact absurd trivial hp
  | connected _ _ | connectFailed _ => exact absurd ha (by simp [Answered, hr])
  | received id e => exact (b.received_iff hr t.self id e).2 (hs hr)
  | chat text =>
    rw [after_chat, if_neg (by simp [hr])]
    exact b
  | poll =>
    have hdrain : (m.pending.drain m.clock).2.1 = .empty := by
      rw [b.pending]
      cases m.clock <;> rfl
    exact ⟨b.isHost, b.election, b.host, b.roomToken, b.peers, hdrain, b.ranking⟩
  | closed id =>
    have hpeer : m.peers.get? id = none := by rw [b.peers]; rfl
    show (m.onClosed id).1.Blank
    unfold onClosed
    rw [hpeer]
    split
    · exact b.update none m.clock m.key
    · exact b

theorem Sheltered.tidy (h : m.Sheltered) : m.Tidy := by
  induction h with
  | outside me directoryAddr => exact tidy_outside me directoryAddr
  | left h => exact h.tidy.after .leave
  | after _ _ _ ih => exact ih.after _
  | unreachable _ _ k ih => exact (ih.after (.join k)).after .abortJoin

/-- By the commands that take it into a room or out of it, and by everything else while it stays outside. -/
theorem Sheltered.blank_of_inRoom (h : m.Sheltered) (hr : m.inRoom = false) : m.Blank := by
  induction h with
  | outside me directoryAddr => exact blank_outside me directoryAddr
  | left h => exact h.tidy.blank_leave
  | @after m h i ha hs ih =>
    by_cases hp : i.IsPassage
    · cases i with
      | join k =>
        rw [after_join] at hr ⊢
        split at hr
        · rename_i hin
          rw [if_pos hin]
          exact ih hr
        · cases hr
      | abortJoin => exact (ih hs).update m.directory m.clock none
      | leave => exact h.tidy.blank_leave
      | chat _ | poll | connected _ _ | connectFailed _ | closed _ | received _ _ => exact hp.elim
    · rw [inRoom_after m hp] at hr
      exact (ih hr).after h.tidy hr hp ha hs
  | @unreachable m h hin k ih =>
    rw [after_join, if_neg (by simp [hin])]
    exact (ih hin).update m.directory .start none

/-- **Outside any room there is nothing of a room**, as long as nothing harmful is heard there; and what is harmful there is
said exactly. -/
theorem Sheltered.blank (h : m.Sheltered) (hr : m.inRoom = false) :
    m.Blank ∧ ∀ id e, (m.after (.received id e)).Blank ↔ m.Harmless e.message :=
  have b := h.blank_of_inRoom hr
  ⟨b, b.received_iff hr h.tidy.self⟩

/-- A member that became host of a room by a vote has nothing of it once it has left; but a second vote makes it host
again. -/
theorem blank_left :
    let vote : Input := .received 1 ⟨⟨.loopback, 7002⟩, .leaderVote⟩
    let joined := (outside ⟨"ann", ⟨.loopback, 7001⟩⟩ (.v4 ⟨.loopback, 7000⟩)).after (.join ⟨RoomKey.zeroBlock⟩)
    let m := (joined.after vote).after .leave
    (joined.after vote).isHost = true ∧ m.Sheltered ∧ m.inRoom = false ∧ m.Blank ∧ ¬ (m.after vote).Blank := by
  intro vote joined m
  have hjoined : joined.Sheltered := (Sheltered.outside _ _).after trivial trivial
  have hvote : (joined.after vote).Sheltered := hjoined.after trivial fun hr => absurd hr (by decide)
  have h : m.Sheltered := hvote.after trivial trivial
  have hb := Sheltered.blank h rfl
  exact ⟨rfl, h, rfl, hb.1, mt (hb.2 _ _).1 not_false⟩

/-- A vote for a member that never was in a room makes it host of none. -/
theorem vote_outside : ¬ ∀ m : Member, m.Attended → m.inRoom = false → m.Blank := by
  intro h
  let ann := outside ⟨"ann", ⟨.loopback, 7001⟩⟩ (.v4 ⟨.loopback, 7000⟩)
  have hm : (ann.after (.received 1 ⟨⟨.loopback, 7002⟩, .leaderVote⟩)).Attended := .after (.outside _ _) trivial
  have hhost := (h _ hm rfl).isHost
  cases hhost

end Parley.Member

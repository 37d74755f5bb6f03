import Parley.Member.Step
import Parley.Proofs.Ranking
import Parley.Proofs.SortedMap

/-!
# What every member keeps

A member starts outside any room and is given inputs of every kind, in any order (`Member.Reachable`). Three commands take
it into a room or out of it. Whatever else it is given, it stays where it is, and what becomes of its table and its ranking
is one of a few changes (`Member.change_after`). So a member always ranks itself, once, under the address that it has, and
its table is in the order of the connections (`Member.Reachable.tidy`).
-/

namespace Parley

/-- The purpose of a connection that is asked for. -/
def Effect.asked? : Effect → Option Role
  | .connect _ role => some role
  | .send _ _ | .disconnect _ | .notify _ => none

/-- The connection that is asked for: where it leads and its purpose. -/
def Effect.call? : Effect → Option (SocketAddress × Role)
  | .connect addr role => some (addr, role)
  | .send _ _ | .disconnect _ | .notify _ => none

/-- What holds at the start holds all along exactly if nothing on the way does harm, where harm is what ends it. -/
theorem throughout_iff {σ ι : Type} {f : σ → ι → σ} {s : σ} {P : σ → Prop} {Harm : σ → ι → Prop} (start : P s)
    (step : ∀ (past : List ι) i, P (past.foldl f s) → (P (f (past.foldl f s) i) ↔ ¬ Harm (past.foldl f s) i))
    (is : List ι) :
    (∀ past rest, is = past ++ rest → P (past.foldl f s)) ↔
      ∀ past i rest, is = past ++ i :: rest → ¬ Harm (past.foldl f s) i := by
  constructor
  · intro h past i rest hs
    have hbefore := h past (i :: rest) hs
    have hafter := h (past ++ [i]) rest (by rw [hs, List.append_assoc, List.singleton_append])
    rw [List.foldl_append] at hafter
    exact (step past i hbefore).1 hafter
  · intro h past
    induction past using List.reverseRecOn with
    | nil =>
      intro _ _
      exact start
    | append_singleton past i ih =>
      intro rest hs
      rw [List.append_assoc, List.singleton_append] at hs
      rw [List.foldl_append]
      exact (step past i (ih (i :: rest) hs)).2 (h past i rest hs)

/-- What can become of a table in one step. -/
inductive PeerTable.Change (t : PeerTable) : PeerTable → Prop
  | same : Change t t
  | insert (id : ConnectionId) (u : Identity) : Change t (t.insert id u)
  | erase (id : ConnectionId) : Change t (t.erase id)

/-- What can become of a ranking in one step, while the local member stays who it is. -/
inductive Ranking.Change (me : Identity) (r : Ranking) : Ranking → Prop
  | same : Change me r r
  | push (u : Identity) : Change me r (r.push u)
  | remove (a : Endpoint) : Change me r (r.remove a)
  | replace (us : List Identity) : Change me r (r.replace us me)

/-- Whoever is registered on a connection is found on it. -/
theorem PeerTable.get?_insert_self (t : PeerTable) (id : ConnectionId) (u : Identity) :
    (t.insert id u).get? id = some u := by
  unfold PeerTable.insert
  split <;> exact SortedMap.get?_insert_self ..

theorem PeerTable.mem_users_of_get? {t : PeerTable} {id : ConnectionId} {u : Identity} (h : t.get? id = some u) :
    u ∈ t.users := by
  obtain ⟨e, he, rfl⟩ := Option.map_eq_some_iff.1 h
  exact List.mem_map_of_mem (List.mem_of_find?_eq_some he)

theorem PeerTable.Change.sorted {t t' : PeerTable} (c : t.Change t') (h : t.byConnection.Sorted) :
    t'.byConnection.Sorted := by
  cases c with
  | same => exact h
  | insert id u =>
    unfold PeerTable.insert
    split
    · exact (h.erase _).insert id u
    · exact h.insert id u
  | erase id => exact h.erase id

theorem Ranking.Change.proper {me : Identity} {r r' : Ranking} (c : r.Change me r') (h : r.Proper) : r'.Proper := by
  cases c with
  | same => exact h
  | push u => exact h.push u
  | remove a => exact h.remove a
  | replace us => exact proper_replace r us me

theorem Ranking.Change.self {me : Identity} {r r' : Ranking} (c : r.Change me r') (h : r.self = me.addr) :
    r'.self = me.addr := by
  cases c with
  | same => exact h
  | push u => exact (r.self_push u).trans h
  | remove a => exact (r.self_remove a).trans h
  | replace us => rfl

namespace Member

/-- The members that come of any inputs. -/
inductive Reachable : Member → Prop
  | outside (me : Identity) (directoryAddr : SocketAddress) : Reachable (outside me directoryAddr)
  | after {m : Member} (h : Reachable m) (i : Input) : Reachable (m.after i)

/-- The commands that take a member into a room or out of it. -/
def Input.IsPassage : Input → Prop
  | .join _ | .abortJoin | .leave => True
  | .chat _ | .poll | .connected _ _ | .connectFailed _ | .closed _ | .received _ _ => False

/-- What can become of a member that stays where it is. -/
structure Change (m m' : Member) : Prop where
  key : m'.key = m.key
  peers : m.peers.Change m'.peers
  ranking : m'.me = m.me ∧ m.ranking.Change m.me m'.ranking ∨ m'.ranking = m.ranking.setSelf m'.me

variable {m : Member}

/-! ## The commands that can be refused -/

/-- A member enters a room if it is in none. -/
theorem step_join (m : Member) (k : RoomKey) :
    m.step (.join k) =
      if m.inRoom then .error .alreadyJoined else .ok ({ m with key := some k, clock := .start }, []) := by
  simp only [step, beginJoin]
  split <;> rfl

theorem after_join (m : Member) (k : RoomKey) :
    m.after (.join k) = if m.inRoom then m else { m with key := some k, clock := .start } := by
  rw [after, step_join]
  by_cases h : m.inRoom = true
  · rw [if_pos h, if_pos h]
  · rw [if_neg h, if_neg h]

theorem effectsOf_join (m : Member) (k : RoomKey) : m.effectsOf (.join k) = [] := by
  rw [effectsOf, step_join]
  by_cases h : m.inRoom = true
  · rw [if_pos h]
  · rw [if_neg h]

/-- A member chats if it is in a room. -/
theorem step_chat_eq_ite (m : Member) (text : String) :
    m.step (.chat text) =
      if m.inRoom then
        .ok ({ m with clock := m.clock.stamp.2 }, [.send .allPeers (.chat m.clock.stamp.1 text)])
      else .error .notJoined := rfl

theorem after_chat (m : Member) (text : String) :
    m.after (.chat text) = if m.inRoom then { m with clock := m.clock.stamp.2 } else m := by
  rw [after, step_chat_eq_ite]
  by_cases h : m.inRoom = true
  · rw [if_pos h, if_pos h]
  · rw [if_neg h, if_neg h]

theorem effectsOf_chat (m : Member) (text : String) :
    m.effectsOf (.chat text) = if m.inRoom then [.send .allPeers (.chat m.clock.stamp.1 text)] else [] := by
  rw [effectsOf, step_chat_eq_ite]
  by_cases h : m.inRoom = true
  · rw [if_pos h, if_pos h]
  · rw [if_neg h, if_neg h]

/-! ## What the handlers change -/

/-- An election that is on goes on. -/
theorem startElection_fst (m : Member) : m.startElection.1 = { m with election := m.election.start } := by
  unfold startElection
  dsimp only
  split
  · rename_i ha
    have hon : m.election.start = m.election := if_pos ha
    rw [hon]
  · split
    · rfl
    · split <;> rfl

/-- Starting an election asks for nothing but a vote. -/
theorem eq_vote_of_mem_startElection {x : Effect} (h : x ∈ m.startElection.2) :
    ∃ id, x = .send (.connection id) .leaderVote := by
  unfold startElection at h
  dsimp only at h
  split at h
  · cases h
  · split at h
    · cases h
    · split at h
      · exact ⟨_, List.mem_singleton.1 h⟩
      · cases h

/-- Only a member that is not host itself can lose the host. -/
theorem forget_fst (m : Member) (user : Identity) (announce : Bool) :
    (m.forget user announce).1 =
      if !m.isHost && m.host = some user.addr then
        { m with ranking := m.ranking.remove user.addr, election := m.election.start, host := none }
      else { m with ranking := m.ranking.remove user.addr } := by
  unfold forget
  dsimp only
  split
  · exact startElection_fst { m with ranking := m.ranking.remove user.addr, host := none }
  · rfl

theorem onVote_fst (m : Member) :
    m.onVote.1 =
      if Election.isWon m.election.start.countVote.votes m.peers.size then
        { m with election := .idle, isHost := true, host := some m.me.addr }
      else { m with election := m.election.start.countVote } := by
  unfold onVote
  dsimp only
  rw [startElection_fst]
  split <;> rfl

theorem onVote_snd (m : Member) :
    m.onVote.2 = m.startElection.2 ++
      if Election.isWon m.election.start.countVote.votes m.peers.size then
        [.send .allPeers .leader, .notify (.leaderElected m.me)] ++
          if m.roomToken.isSome && m.directory.isNone then [m.connectDirectory] else []
      else [] := by
  unfold onVote
  dsimp only
  rw [startElection_fst]
  split
  · rfl
  · exact (List.append_nil _).symm

/-- A departure is reported and announced, and may start an election. -/
theorem eq_of_mem_forget {user : Identity} {announce : Bool} {x : Effect} (h : x ∈ (m.forget user announce).2) :
    x = .notify (.peerLeft user) ∨ x = .send .allPeers (.deadUser user) ∨
      ∃ id, x = .send (.connection id) .leaderVote := by
  have hsaid {b : Bool}
      (hx : x ∈ Effect.notify (.peerLeft user) :: if b then [.send .allPeers (.deadUser user)] else []) :
      x = .notify (.peerLeft user) ∨ x = .send .allPeers (.deadUser user) := by
    rcases List.mem_cons.1 hx with heq | hx
    · exact .inl heq
    · split at hx
      · exact .inr (List.mem_singleton.1 hx)
      · cases hx
  unfold forget at h
  dsimp only at h
  split at h
  · rcases List.mem_append.1 h with hx | hx
    · exact (hsaid hx).imp_right .inl
    · exact .inr (.inr (eq_vote_of_mem_startElection hx))
  · exact (hsaid h).imp_right .inl

/-- A vote may be passed on to the first in rank, or it is the last one needed: then the victory is announced and reported,
and the directory is to hear of it. -/
theorem eq_of_mem_onVote {x : Effect} (h : x ∈ m.onVote.2) :
    (∃ id, x = .send (.connection id) .leaderVote) ∨ x = .send .allPeers .leader ∨ x = .notify (.leaderElected m.me) ∨
      x = m.connectDirectory := by
  rw [onVote_snd] at h
  rcases List.mem_append.1 h with hx | hx
  · exact .inl (eq_vote_of_mem_startElection hx)
  · right
    split at hx
    · rcases List.mem_append.1 hx with hx | hx
      · exact (List.mem_cons.1 hx).imp_right fun hx => .inl (List.mem_singleton.1 hx)
      · split at hx
        · exact .inr (.inr (List.mem_singleton.1 hx))
        · cases hx
    · cases hx

theorem onLeader_fst (m : Member) (id : ConnectionId) (sender : Endpoint) :
    ∃ a, (m.onLeader id sender).1 = { m with election := .idle, isHost := false, host := some a } := by
  unfold onLeader
  dsimp only
  split
  · exact ⟨_, rfl⟩
  · exact ⟨sender, rfl⟩

/-- A member that has nobody left to join becomes host. -/
theorem tryNextCandidate_fst (m : Member) :
    m.tryNextCandidate.1 =
      if m.candidates = [] then { m with isHost := true, host := some m.me.addr, clock := .start }
      else { m with candidates := m.candidates.tail } := by
  unfold tryNextCandidate
  split
  · rename_i host rest hc
    rw [hc, if_neg (List.cons_ne_nil host rest)]
    rfl
  · rename_i hc
    rw [if_pos hc]
    rfl

/-- A listing changes the host, the clock and what is left to be tried. -/
theorem onRoomList_fst (m : Member) (entries : List Bytes) :
    ∃ cs b h c, (m.onRoomList entries).1 = { m with candidates := cs, isHost := b, host := h, clock := c } := by
  unfold onRoomList
  split
  · exact ⟨m.candidates, m.isHost, m.host, m.clock, rfl⟩
  · rw [tryNextCandidate_fst]
    split
    · exact ⟨_, true, some m.me.addr, .start, rfl⟩
    · exact ⟨_, m.isHost, m.host, m.clock, rfl⟩

/-- The ranking may be given another host, but the connection that is erased stays erased. -/
theorem change_forget_erase (m : Member) (id : ConnectionId) (user : Identity) (announce : Bool) :
    Change m (forget { m with peers := m.peers.erase id } user announce).1 := by
  rw [forget_fst]
  split <;> exact ⟨rfl, .erase id, .inl ⟨rfl, .remove user.addr⟩⟩

theorem change_self (m : Member) : Change m m := ⟨rfl, .same, .inl ⟨rfl, .same⟩⟩

theorem change_onHello (m : Member) (id : ConnectionId) (user : Identity) : Change m (m.onHello id user).1 := by
  unfold onHello
  dsimp only
  split
  · exact ⟨rfl, .insert id user, .inl ⟨rfl, .push user⟩⟩
  · exact ⟨rfl, .insert id user, .inl ⟨rfl, .same⟩⟩

theorem change_onDeadUser (m : Member) (user : Identity) : Change m (m.onDeadUser user).1 := by
  unfold onDeadUser
  split
  · exact change_self m
  · split
    · exact change_forget_erase m _ _ _
    · split
      · rw [forget_fst]
        split <;> exact ⟨rfl, .same, .inl ⟨rfl, .remove user.addr⟩⟩
      · exact change_self m

theorem change_onBye (m : Member) (id : ConnectionId) : Change m (m.onBye id).1 := by
  unfold onBye
  split
  · exact change_forget_erase m _ _ _
  · exact change_self m

theorem change_act (m : Member) (id : ConnectionId) (e : Envelope) : Change m (m.act id e).1 := by
  obtain ⟨sender, message⟩ := e
  cases message with
  | hello user => exact change_onHello m id user
  | userInfo user =>
    show Change m (m.onUserInfo user).1
    unfold onUserInfo
    split <;> exact change_self m
  | yourInfo user =>
    unfold act
    dsimp only
    split
    · exact ⟨rfl, .same, .inr rfl⟩
    · exact change_self m
  | roomList entries =>
    unfold act
    dsimp only
    split
    · obtain ⟨cs, b, h, c, he⟩ := onRoomList_fst m entries
      rw [he]
      exact ⟨rfl, .same, .inl ⟨rfl, .same⟩⟩
    · exact change_self m
  | ack info =>
    show Change m (m.onAck info).1
    unfold onAck
    dsimp only
    split <;> exact ⟨rfl, .same, .inl ⟨rfl, .same⟩⟩
  | rankOrder users => exact ⟨rfl, .same, .inl ⟨rfl, .replace users⟩⟩
  | deadUser user => exact change_onDeadUser m user
  | bye => exact change_onBye m id
  | leaderVote =>
    show Change m m.onVote.1
    rw [onVote_fst]
    split <;> exact ⟨rfl, .same, .inl ⟨rfl, .same⟩⟩
  | leader =>
    obtain ⟨a, he⟩ := onLeader_fst m id sender
    show Change m (m.onLeader id sender).1
    rw [he]
    exact ⟨rfl, .same, .inl ⟨rfl, .same⟩⟩
  | chat | hostRoom | requestRoomList | process | queue | hostUpdated | sealed => exact change_self m

theorem change_onMessage (m : Member) (id : ConnectionId) (e : Envelope) : Change m (m.onMessage id e).1 := by
  unfold onMessage
  dsimp only
  split
  · unfold onChat
    split <;> exact ⟨rfl, .same, .inl ⟨rfl, .same⟩⟩
  · exact change_act m id e

theorem change_onConnected (m : Member) (id : ConnectionId) (role : Role) : Change m (m.onConnected id role).1 := by
  cases role with
  | discover => exact ⟨rfl, .same, .inl ⟨rfl, .same⟩⟩
  | advertise =>
    unfold onConnected
    dsimp only
    split <;> exact ⟨rfl, .same, .inl ⟨rfl, .same⟩⟩
  | roomHost host => exact ⟨rfl, .insert id host, .inl ⟨rfl, .push host⟩⟩
  | member user => exact ⟨rfl, .insert id user, .inl ⟨rfl, .push user⟩⟩

theorem change_onConnectFailed (m : Member) (role : Role) : Change m (m.onConnectFailed role).1 := by
  cases role with
  | discover | advertise => exact change_self m
  | roomHost host =>
    show Change m m.tryNextCandidate.1
    rw [tryNextCandidate_fst]
    split <;> exact ⟨rfl, .same, .inl ⟨rfl, .same⟩⟩
  | member user => exact ⟨rfl, .same, .inl ⟨rfl, .remove user.addr⟩⟩

theorem change_onClosed (m : Member) (id : ConnectionId) : Change m (m.onClosed id).1 := by
  unfold onClosed
  split
  · exact ⟨rfl, .same, .inl ⟨rfl, .same⟩⟩
  · split
    · exact change_forget_erase m _ _ _
    · exact change_self m

/-- What becomes of a member by anything but the commands that take it into a room or out of it. -/
theorem change_after (m : Member) {i : Input} (h : ¬ i.IsPassage) : Change m (m.after i) := by
  cases i with
  | join _ | abortJoin | leave => exact absurd trivial h
  | chat text =>
    rw [after_chat]
    split
    · exact ⟨rfl, .same, .inl ⟨rfl, .same⟩⟩
    · exact change_self m
  | poll => exact ⟨rfl, .same, .inl ⟨rfl, .same⟩⟩
  | connected id role => exact change_onConnected m id role
  | connectFailed role => exact change_onConnectFailed m role
  | closed id => exact change_onClosed m id
  | received id e => exact change_onMessage m id e

theorem inRoom_after (m : Member) {i : Input} (h : ¬ i.IsPassage) : (m.after i).inRoom = m.inRoom :=
  congrArg Option.isSome (change_after m h).key

/-! ## Runs -/

/-- A member after inputs, one after the other. -/
def run (m : Member) (is : List Input) : Member := is.foldl after m

theorem Reachable.run (h : m.Reachable) (is : List Input) : (m.run is).Reachable := by
  induction is generalizing m with
  | nil => exact h
  | cons i is ih => exact ih (h.after i)

/-! ## What is kept -/

/-- The table is in the order of the connections, and the member ranks itself once, under its address. -/
structure Tidy (m : Member) : Prop where
  sorted : m.peers.byConnection.Sorted
  proper : m.ranking.Proper
  self : m.ranking.self = m.me.addr

theorem Tidy.of_change {m' : Member} (t : m.Tidy) (c : m.Change m') : m'.Tidy := by
  obtain ⟨-, hp, ⟨hme, hr⟩ | hr⟩ := c
  · exact ⟨hp.sorted t.sorted, hr.proper t.proper, (hr.self t.self).trans (congrArg Identity.addr hme.symm)⟩
  · exact ⟨hp.sorted t.sorted, hr ▸ t.proper.setSelf m'.me, hr ▸ rfl⟩

theorem tidy_outside (me : Identity) (directoryAddr : SocketAddress) : (outside me directoryAddr).Tidy :=
  ⟨SortedMap.sorted_empty, Ranking.proper_alone me, rfl⟩

theorem Tidy.after (t : m.Tidy) (i : Input) : (m.after i).Tidy := by
  cases i with
  | join k =>
    rw [after_join]
    split <;> exact ⟨t.sorted, t.proper, t.self⟩
  | abortJoin => exact ⟨t.sorted, t.proper, t.self⟩
  | leave => exact ⟨SortedMap.sorted_empty, t.proper.reset, t.self⟩
  | chat _ | poll | connected _ _ | connectFailed _ | closed _ | received _ _ => exact t.of_change (change_after m id)

theorem Reachable.tidy (h : m.Reachable) : m.Tidy := by
  induction h with
  | outside me directoryAddr => exact tidy_outside me directoryAddr
  | after _ i ih => exact ih.after i

/-- **A member ranks itself exactly once**, under the address that it has, and nobody else twice, whatever it is told. So
somebody is always first in rank, and whatever is removed from the ranking, the member is not. -/
theorem Reachable.ranks_itself_once (h : m.Reachable) :
    m.ranking.order.Nodup ∧ m.ranking.order.count m.me.addr = 1 ∧ m.ranking.self = m.me.addr ∧
      m.ranking.users.head? = some m.ranking.head ∧
      ∀ a, (m.ranking.remove a).order.count m.me.addr = 1 ∧
        ∀ u, m.ranking.removed? a = some u → u.addr ≠ m.me.addr := by
  have t := h.tidy
  refine ⟨t.proper.nodup, t.self ▸ t.proper.count_self, t.self, t.proper.head?_users, fun a => ⟨?_, fun u hu => ?_⟩⟩
  · have hcount := (t.proper.remove a).count_self
    rwa [Ranking.self_remove, t.self] at hcount
  · obtain ⟨rfl, hne⟩ := Ranking.addr_removed? hu
    rwa [t.self] at hne

/-- A member that is told a ranking in which others stand twice and it does not stand at all, and that is then moved to the
address of the first in rank. It takes the place of that one. -/
theorem ranks_itself_once_moved :
    let bob : Identity := ⟨"bob", ⟨.loopback, 7002⟩⟩
    let cyd : Identity := ⟨"cyd", ⟨.loopback, 7003⟩⟩
    let met := (outside ⟨"ann", ⟨.loopback, 7001⟩⟩ (.v4 ⟨.loopback, 7000⟩)).after (.connected 1 .discover)
    let ranked := met.after (.received 2 ⟨bob.addr, .rankOrder [bob, cyd, bob, cyd]⟩)
    let m := ranked.after (.received 1 ⟨⟨.loopback, 7000⟩, .yourInfo ⟨"ann", bob.addr⟩⟩)
    ranked.ranking.order = [bob.addr, cyd.addr, ⟨.loopback, 7001⟩] ∧ m.Reachable ∧ m.me.addr = bob.addr ∧
      m.ranking.order = [bob.addr, cyd.addr] ∧ (m.ranking.remove bob.addr).order.count m.me.addr = 1 := by
  intro bob cyd met ranked m
  have h : m.Reachable := .after (.after (.after (.outside _ _) _) _) _
  obtain ⟨-, -, -, -, hremove⟩ := Reachable.ranks_itself_once h
  exact ⟨by decide, h, rfl, by decide, (hremove bob.addr).1⟩

end Member
end Parley

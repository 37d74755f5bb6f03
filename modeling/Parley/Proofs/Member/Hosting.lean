import Parley.Proofs.Member.Reachable

/-!
# Hosts

A member knows who it is, whether it is host, whom it takes for host and how far an election has come (`Member.Office`).
One input changes this in one of nine ways (`Member.turn_after`). Two things are expected of a host: it takes itself for the
host (`Member.KnowsItself`), and its election is over (`Member.Settled`). Neither is so in every run.

A dial to the host of a room may come about after the member has become host itself. It then takes the other one for host
and stays host (`Member.host_follows_another`). Nothing else makes a host forget that it is host
(`Member.knowsItself_throughout_iff`).

Votes keep coming in after an election has been won. With more than two connections the next vote starts another election,
at a host (`Member.late_vote_reopens`); with fewer the host wins once more and says so again. A member that waits for votes
and then has no room left to join becomes host of a new one, and the election goes on. Nothing else leaves a host with an
election (`Member.settled_throughout_iff`).
-/

namespace Parley.Member

/-- What a member takes itself for. -/
structure Office where
  me : Identity
  isHost : Bool
  host : Option Endpoint
  election : Election

/-- What a member takes itself for. -/
def office (m : Member) : Office where
  me := m.me
  isHost := m.isHost
  host := m.host
  election := m.election

/-- The member hosts a new room, because there is none that it could join: it has tried them all, or the directory lists
none that the room key opens, other than its own. -/
def Founds (m : Member) : Input → Prop
  | .connectFailed (.roomHost _) => m.candidates = []
  | .received id ⟨_, .roomList entries⟩ =>
    m.directory = some id ∧
      ∃ k, m.key = some k ∧ ∀ entry ∈ entries, ∀ u, k.openAdvert entry = .ok u → u.addr = m.me.addr
  | _ => False

/-- What an input can make of what a member takes itself for. -/
inductive Turn (m : Member) : Input → Office → Prop
  | stays {i : Input} : Turn m i m.office
  /-- The host is gone. -/
  | bereft {i : Input} (h : m.isHost = false) :
    Turn m i { m.office with host := none, election := m.election.start }
  /-- A vote that does not suffice. -/
  | counts (id : ConnectionId) (a : Endpoint)
    (h : Election.isWon m.election.start.countVote.votes m.peers.size = false) :
    Turn m (.received id ⟨a, .leaderVote⟩) { m.office with election := m.election.start.countVote }
  /-- A vote that suffices. -/
  | wins (id : ConnectionId) (a : Endpoint)
    (h : Election.isWon m.election.start.countVote.votes m.peers.size = true) :
    Turn m (.received id ⟨a, .leaderVote⟩) ⟨m.me, true, some m.me.addr, .idle⟩
  /-- A new room. -/
  | founds {i : Input} (h : m.Founds i) : Turn m i { m.office with isHost := true, host := some m.me.addr }
  /-- Somebody else has won. -/
  | yields (id : ConnectionId) (a b : Endpoint) : Turn m (.received id ⟨a, .leader⟩) ⟨m.me, false, some b, .idle⟩
  /-- The host of a room is met. -/
  | follows (id : ConnectionId) (u : Identity) :
    Turn m (.connected id (.roomHost u)) { m.office with host := some u.addr }
  /-- The directory says how the member looks from outside. -/
  | moves {i : Input} (u : Identity) :
    Turn m i { m.office with me := u, host := if m.host = some m.me.addr then some u.addr else m.host }
  | leaves : Turn m .leave ⟨m.me, false, none, .idle⟩

variable {m : Member} {i : Input}

/-! ## What an input makes of it -/

theorem turn_forget (m : Member) (t : PeerTable) (i : Input) (user : Identity) (announce : Bool) :
    Turn m i (forget { m with peers := t } user announce).1.office := by
  rw [forget_fst]
  split
  · rename_i h
    rw [Bool.and_eq_true, Bool.not_eq_true'] at h
    exact .bereft h.1
  · exact .stays

theorem turn_onDeadUser (m : Member) (i : Input) (user : Identity) : Turn m i (m.onDeadUser user).1.office := by
  unfold onDeadUser
  split
  · exact .stays
  · split
    · exact turn_forget m _ i _ false
    · split
      · exact turn_forget m m.peers i user false
      · exact .stays

theorem turn_onBye (m : Member) (i : Input) (id : ConnectionId) : Turn m i (m.onBye id).1.office := by
  unfold onBye
  split
  · exact turn_forget m _ i _ false
  · exact .stays

theorem turn_onClosed (m : Member) (i : Input) (id : ConnectionId) : Turn m i (m.onClosed id).1.office := by
  unfold onClosed
  split
  · exact .stays
  · split
    · exact turn_forget m _ i _ true
    · exact .stays

theorem turn_onVote (m : Member) (id : ConnectionId) (a : Endpoint) :
    Turn m (.received id ⟨a, .leaderVote⟩) m.onVote.1.office := by
  rw [onVote_fst]
  split
  · rename_i h
    exact .wins id a h
  · rename_i h
    exact .counts id a (Bool.eq_false_iff.2 h)

theorem turn_onLeader (m : Member) (id : ConnectionId) (a : Endpoint) :
    Turn m (.received id ⟨a, .leader⟩) (m.onLeader id a).1.office := by
  obtain ⟨b, hb⟩ := onLeader_fst m id a
  rw [hb]
  exact .yields id a b

/-- The rooms that are left after a listing. -/
theorem joinable_eq_nil_iff {k : RoomKey} {entries : List Bytes} {a : Endpoint} :
    ((entries.filterMap fun e => (k.openAdvert e).toOption).filter fun u => u.addr ≠ a) = [] ↔
      ∀ entry ∈ entries, ∀ u, k.openAdvert entry = .ok u → u.addr = a := by
  have hopen (entry : Bytes) (u : Identity) :
      (k.openAdvert entry).toOption = some u ↔ k.openAdvert entry = .ok u := by
    cases k.openAdvert entry <;> simp [Except.toOption]
  simp only [List.filter_eq_nil_iff, List.mem_filterMap, hopen, decide_eq_true_eq, not_not]
  constructor
  · intro h entry he u hu
    exact h u ⟨entry, he, hu⟩
  · rintro h u ⟨entry, he, hu⟩
    exact h entry he u hu

theorem turn_onRoomList (id : ConnectionId) (a : Endpoint) (entries : List Bytes) (hd : m.directory = some id) :
    Turn m (.received id ⟨a, .roomList entries⟩) (m.onRoomList entries).1.office := by
  unfold onRoomList
  split
  · exact .stays
  · rename_i k hk
    rw [tryNextCandidate_fst]
    split
    · rename_i hnone
      exact .founds ⟨hd, k, hk, joinable_eq_nil_iff.1 hnone⟩
    · exact .stays

theorem turn_act (m : Member) (id : ConnectionId) (e : Envelope) : Turn m (.received id e) (m.act id e).1.office := by
  obtain ⟨sender, message⟩ := e
  cases message with
  | hello user =>
    show Turn m _ (m.onHello id user).1.office
    unfold onHello
    dsimp only
    split <;> exact .stays
  | userInfo user =>
    show Turn m _ (m.onUserInfo user).1.office
    unfold onUserInfo
    split <;> exact .stays
  | yourInfo user =>
    unfold act
    dsimp only
    split
    · exact .moves user
    · exact .stays
  | roomList entries =>
    unfold act
    dsimp only
    split
    · rename_i hd
      exact turn_onRoomList id sender entries hd
    · exact .stays
  | ack info =>
    show Turn m _ (m.onAck info).1.office
    unfold onAck
    dsimp only
    split <;> exact .stays
  | rankOrder users => exact .stays
  | deadUser user => exact turn_onDeadUser m _ user
  | bye => exact turn_onBye m _ id
  | leaderVote => exact turn_onVote m id sender
  | leader => exact turn_onLeader m id sender
  | chat | hostRoom | requestRoomList | process | queue | hostUpdated | sealed => exact .stays

theorem turn_onMessage (m : Member) (id : ConnectionId) (e : Envelope) :
    Turn m (.received id e) (m.onMessage id e).1.office := by
  unfold onMessage
  dsimp only
  split
  · unfold onChat
    split <;> exact .stays
  · exact turn_act m id e

theorem turn_onConnected (m : Member) (id : ConnectionId) (role : Role) :
    Turn m (.connected id role) (m.onConnected id role).1.office := by
  cases role with
  | discover | member user => exact .stays
  | advertise =>
    unfold onConnected
    dsimp only
    split <;> exact .stays
  | roomHost user => exact .follows id user

theorem turn_onConnectFailed (m : Member) (role : Role) :
    Turn m (.connectFailed role) (m.onConnectFailed role).1.office := by
  cases role with
  | discover | advertise | member user => exact .stays
  | roomHost user =>
    show Turn m _ m.tryNextCandidate.1.office
    rw [tryNextCandidate_fst]
    split
    · rename_i hnone
      exact .founds hnone
    · exact .stays

/-- What one input can make of what a member takes itself for. -/
theorem turn_after (m : Member) (i : Input) : Turn m i (m.after i).office := by
  cases i with
  | join k =>
    rw [after_join]
    split <;> exact .stays
  | chat text =>
    rw [after_chat]
    split <;> exact .stays
  | abortJoin | poll => exact .stays
  | leave => exact .leaves
  | connected id role => exact turn_onConnected m id role
  | connectFailed role => exact turn_onConnectFailed m role
  | closed id => exact turn_onClosed m _ id
  | received id e => exact turn_onMessage m id e

/-- A member that hosts a new room is host, and an election that was on goes on. -/
theorem Founds.after (h : m.Founds i) : (m.after i).isHost = true ∧ (m.after i).election = m.election := by
  cases i with
  | connectFailed role =>
    cases role with
    | roomHost user =>
      have hnone : m.candidates = [] := h
      show m.tryNextCandidate.1.isHost = true ∧ m.tryNextCandidate.1.election = m.election
      rw [tryNextCandidate_fst, if_pos hnone]
      exact ⟨rfl, rfl⟩
    | discover | advertise | member user => cases h
  | received id e =>
    obtain ⟨sender, message⟩ := e
    cases message with
    | roomList entries =>
      obtain ⟨hd, k, hk, hown⟩ := h
      have hafter : m.after (.received id ⟨sender, .roomList entries⟩) = (m.onRoomList entries).1 := by
        show (m.act id ⟨sender, .roomList entries⟩).1 = _
        unfold act
        dsimp only
        rw [if_pos hd]
      have hlist : m.onRoomList entries = tryNextCandidate { m with
          candidates := (entries.filterMap fun e => (k.openAdvert e).toOption).filter fun u => u.addr ≠ m.me.addr } := by
        unfold onRoomList
        rw [hk]
      rw [hafter, hlist, tryNextCandidate_fst, if_pos (joinable_eq_nil_iff.2 hown)]
      exact ⟨rfl, rfl⟩
    | _ => cases h
  | _ => cases h

/-! ## A host takes itself for the host -/

/-- A host takes itself for the host. -/
def KnowsItself (m : Member) : Prop := m.isHost = true → m.host = some m.me.addr

/-- A host meets the host of another room. -/
def Unseats (m : Member) (i : Input) : Prop :=
  m.isHost = true ∧ ∃ id u, i = .connected id (.roomHost u) ∧ u.addr ≠ m.me.addr

/-- Nothing else makes it forget. -/
theorem KnowsItself.after (h : m.KnowsItself) (hi : ¬ m.Unseats i) : (m.after i).KnowsItself := by
  have t := turn_after m i
  show (m.after i).office.isHost = true → (m.after i).office.host = some (m.after i).office.me.addr
  generalize (m.after i).office = o at t
  cases t with
  | stays => exact h
  | bereft hno =>
    intro hh
    exact absurd hh (Bool.eq_false_iff.1 hno)
  | counts id a hvotes => exact h
  | wins id a hvotes => exact fun _ => rfl
  | founds hf => exact fun _ => rfl
  | yields id a b => nofun
  | follows id u =>
    intro hh
    by_cases hu : u.addr = m.me.addr
    · exact congrArg some hu
    · exact absurd ⟨hh, id, u, rfl, hu⟩ hi
  | moves u =>
    intro hh
    exact if_pos (h hh)
  | leaves => nofun

theorem KnowsItself.after_iff (h : m.KnowsItself) (i : Input) : (m.after i).KnowsItself ↔ ¬ m.Unseats i := by
  constructor
  · rintro h' ⟨hh, id, u, rfl, hu⟩
    exact hu (Option.some.inj (h' hh))
  · exact h.after

/-- **A host takes itself for the host** all along a run exactly if it never meets the host of another room while it is host
itself. -/
theorem knowsItself_throughout_iff (me : Identity) (directoryAddr : SocketAddress) (is : List Input) :
    (∀ past rest, is = past ++ rest → ((outside me directoryAddr).run past).KnowsItself) ↔
      ∀ past i rest, is = past ++ i :: rest → ¬ ((outside me directoryAddr).run past).Unseats i :=
  throughout_iff nofun (fun _ i h => KnowsItself.after_iff h i) is

/-- While the dial to the host of a room is on its way, a vote makes the member host. -/
theorem host_follows_another : ¬ ∀ m : Member, m.Reachable → m.KnowsItself := by
  intro h
  let bob : Identity := ⟨"bob", ⟨.loopback, 7002⟩⟩
  let joined := ((outside ⟨"ann", ⟨.loopback, 7001⟩⟩ (.v4 ⟨.loopback, 7000⟩)).after (.join ⟨RoomKey.zeroBlock⟩)).after
    (.connected 1 .discover)
  let met (dialling : Member) := (dialling.after (.received 2 ⟨⟨.loopback, 7003⟩, .leaderVote⟩)).after
    (.connected 3 (.roomHost bob))
  -- Which rooms are listed does not matter: nobody is in the table, so one vote suffices.
  have hmet (entries : List Bytes) :
      ¬ (met (joined.after (.received 1 ⟨⟨.loopback, 7000⟩, .roomList entries⟩))).KnowsItself := by
    obtain ⟨cs, b, a, c, hlist⟩ := onRoomList_fst joined entries
    have hdialling : joined.after (.received 1 ⟨⟨.loopback, 7000⟩, .roomList entries⟩) =
        { joined with candidates := cs, isHost := b, host := a, clock := c } := hlist
    rw [hdialling]
    intro hknows
    cases hknows rfl
  exact hmet [RoomKey.sealAdvert ⟨RoomKey.zeroBlock⟩ bob]
    (h _ (.after (.after (.after (.after (.after (.outside _ _) _) _) _) _) _))

/-! ## The election of a host is over -/

/-- No election is on at a host. -/
def Settled (m : Member) : Prop := m.isHost = true → m.election.active = false

/-- A member says that it has won. -/
def Acclaims (m : Member) (i : Input) : Prop := .send .allPeers .leader ∈ m.effectsOf i

/-- A member asks for a connection on which it can tell the directory of its room. -/
def Readvertises (m : Member) (i : Input) : Prop := m.connectDirectory ∈ m.effectsOf i

/-- A host hears a vote that does not suffice, or a member hosts a new room during an election. -/
def Reopens (m : Member) (i : Input) : Prop :=
  (m.isHost = true ∧ 2 < m.peers.size ∧ ∃ id a, i = .received id ⟨a, .leaderVote⟩) ∨
    (m.election.active = true ∧ m.Founds i)

/-- Where no election is on, the first vote suffices for two connections. -/
theorem isWon_first (h : m.election.active = false) (n : Nat) :
    Election.isWon m.election.start.countVote.votes n = decide (n ≤ 2) := by
  have hstart : m.election.start = ⟨true, 0⟩ := if_neg (by simp [h])
  rw [hstart]
  simp [Election.isWon, Election.countVote]

theorem Settled.after (h : m.Settled) (hi : ¬ m.Reopens i) : (m.after i).Settled := by
  have t := turn_after m i
  show (m.after i).office.isHost = true → (m.after i).office.election.active = false
  generalize (m.after i).office = o at t
  cases t with
  | stays => exact h
  | bereft hno =>
    intro hh
    exact absurd hh (Bool.eq_false_iff.1 hno)
  | counts id a hvotes =>
    intro hh
    rw [isWon_first (h hh), decide_eq_false_iff_not, Nat.not_le] at hvotes
    exact absurd (.inl ⟨hh, hvotes, id, a, rfl⟩) hi
  | wins id a hvotes => exact fun _ => rfl
  | founds hf =>
    intro _
    by_contra hon
    exact hi (.inr ⟨Bool.not_eq_false _ ▸ hon, hf⟩)
  | yields id a b => nofun
  | follows id u => exact h
  | moves u => exact h
  | leaves => nofun

theorem Settled.after_iff (h : m.Settled) (i : Input) : (m.after i).Settled ↔ ¬ m.Reopens i := by
  constructor
  · rintro h' (⟨hh, hsize, id, a, rfl⟩ | ⟨hon, hf⟩)
    · have hoff := h hh
      have hshort : Election.isWon m.election.start.countVote.votes m.peers.size = false := by
        rw [isWon_first hoff, decide_eq_false_iff_not, Nat.not_le]
        exact hsize
      have hopen : m.onVote.1.election.active = false := h' (by
        show m.onVote.1.isHost = true
        rw [onVote_fst, hshort]
        exact hh)
      rw [onVote_fst, hshort] at hopen
      simp [Election.start, Election.countVote, hoff] at hopen
    · obtain ⟨hh, he⟩ := hf.after
      have hoff := h' hh
      rw [he, hon] at hoff
      cases hoff
  · exact h.after

/-- What a vote makes a host do whose election is over. -/
theorem vote_at_host (he : m.election.active = false) (id : ConnectionId) (a : Endpoint) :
    (m.Acclaims (.received id ⟨a, .leaderVote⟩) ↔ m.peers.size ≤ 2) ∧
      (m.Readvertises (.received id ⟨a, .leaderVote⟩) ↔
        m.peers.size ≤ 2 ∧ m.roomToken.isSome = true ∧ m.directory = none) ∧
      ((m.after (.received id ⟨a, .leaderVote⟩)).election.active = true ↔ 2 < m.peers.size) := by
  have hwon := isWon_first he m.peers.size
  have heffects : m.effectsOf (.received id ⟨a, .leaderVote⟩) =
      .notify (.messageReceived (m.peers.get? id) .leaderVote) :: m.onVote.2 := rfl
  have hmem {x : Effect} (hx : ∀ id, x ≠ .send (.connection id) .leaderVote) : x ∉ m.startElection.2 := by
    intro h
    obtain ⟨id, rfl⟩ := eq_vote_of_mem_startElection h
    exact hx id rfl
  refine ⟨?_, ?_, ?_⟩
  · rw [Acclaims, heffects, onVote_snd, hwon]
    by_cases hsize : m.peers.size ≤ 2
    · simp [hsize]
    · simp [hsize, hmem]
  · rw [Readvertises, heffects, onVote_snd, hwon]
    by_cases hsize : m.peers.size ≤ 2
    · by_cases hc : m.roomToken.isSome = true ∧ m.directory = none
      · simp [hsize, hc, connectDirectory]
      · simp [hsize, hc, hmem, connectDirectory]
    · simp [hsize, hmem, connectDirectory]
  · show m.onVote.1.election.active = true ↔ _
    rw [onVote_fst, hwon]
    by_cases hsize : m.peers.size ≤ 2
    · simp [hsize, Election.idle]
    · simp [hsize, Election.start, Election.countVote, he, Nat.not_le.1 hsize]

/-- **The election of a host is over** all along a run exactly if no host hears a vote that does not suffice, and no member
hosts a new room during an election. Yet no vote after the election is in vain: with at most two connections the member says
again that it has won, and asks again for a connection to the directory if it has a token and none; with more another
election is on. -/
theorem settled_throughout_iff (me : Identity) (directoryAddr : SocketAddress) (is : List Input) :
    ((∀ past rest, is = past ++ rest → ((outside me directoryAddr).run past).Settled) ↔
        ∀ past i rest, is = past ++ i :: rest → ¬ ((outside me directoryAddr).run past).Reopens i) ∧
      ∀ (m : Member) (id : ConnectionId) (a : Endpoint), m.election.active = false →
        (m.Acclaims (.received id ⟨a, .leaderVote⟩) ↔ m.peers.size ≤ 2) ∧
          (m.Readvertises (.received id ⟨a, .leaderVote⟩) ↔
            m.peers.size ≤ 2 ∧ m.roomToken.isSome = true ∧ m.directory = none) ∧
          ((m.after (.received id ⟨a, .leaderVote⟩)).election.active = true ↔ 2 < m.peers.size) :=
  ⟨throughout_iff nofun (fun _ i h => Settled.after_iff h i) is, fun _ id a he => vote_at_host he id a⟩

/-- A member that has lost its host, has won with the vote of one of two members and asks for a connection to the directory
hears the vote of the other one. -/
theorem late_vote_acclaims :
    let ann : Identity := ⟨"ann", ⟨.loopback, 7001⟩⟩
    let bob : Identity := ⟨"bob", ⟨.loopback, 7002⟩⟩
    let cyd : Identity := ⟨"cyd", ⟨.loopback, 7003⟩⟩
    let dee : Identity := ⟨"dee", ⟨.loopback, 7004⟩⟩
    let joined := ((outside bob (.v4 ⟨.loopback, 7000⟩)).after (.join ⟨RoomKey.zeroBlock⟩)).after
      (.connected 1 (.roomHost ann))
    let admitted := joined.after (.received 1 ⟨ann.addr, .ack "token"⟩)
    let met := (admitted.after (.received 2 ⟨cyd.addr, .hello cyd⟩)).after (.received 3 ⟨dee.addr, .hello dee⟩)
    let waiting := met.after (.closed 1)
    let won := waiting.after (.received 2 ⟨cyd.addr, .leaderVote⟩)
    waiting.isHost = false ∧ won.isHost = true ∧ won.election.active = false ∧
      won.Acclaims (.received 3 ⟨dee.addr, .leaderVote⟩) ∧ won.Readvertises (.received 3 ⟨dee.addr, .leaderVote⟩) := by
  intro ann bob cyd dee joined admitted met waiting won
  have hwon : waiting.isHost = false ∧ won.isHost = true ∧ won.election.active = false := by decide
  have hroom : won.peers.size ≤ 2 ∧ won.roomToken.isSome = true ∧ won.directory = none := by decide
  obtain ⟨hacclaims, hreadvertises, -⟩ :=
    (settled_throughout_iff bob (.v4 ⟨.loopback, 7000⟩) []).2 won 3 dee.addr hwon.2.2
  exact ⟨hwon.1, hwon.2.1, hwon.2.2, hacclaims.2 hroom.1, hreadvertises.2 hroom⟩

/-- The third of three votes opens the election again. -/
theorem late_vote_reopens : ¬ ∀ m : Member, m.Reachable → m.Settled := by
  intro h
  let ann : Identity := ⟨"ann", ⟨.loopback, 7001⟩⟩
  let bob : Identity := ⟨"bob", ⟨.loopback, 7002⟩⟩
  let cyd : Identity := ⟨"cyd", ⟨.loopback, 7003⟩⟩
  let dee : Identity := ⟨"dee", ⟨.loopback, 7004⟩⟩
  let eve : Identity := ⟨"eve", ⟨.loopback, 7005⟩⟩
  let joined := ((outside bob (.v4 ⟨.loopback, 7000⟩)).after (.join ⟨RoomKey.zeroBlock⟩)).after
    (.connected 1 (.roomHost ann))
  let met := ((joined.after (.received 2 ⟨cyd.addr, .hello cyd⟩)).after (.received 3 ⟨dee.addr, .hello dee⟩)).after
    (.received 4 ⟨eve.addr, .hello eve⟩)
  let won := ((met.after (.closed 1)).after (.received 2 ⟨cyd.addr, .leaderVote⟩)).after
    (.received 3 ⟨dee.addr, .leaderVote⟩)
  let m := won.after (.received 4 ⟨eve.addr, .leaderVote⟩)
  have hjoined : joined.Reachable := .after (.after (.outside _ _) _) _
  have hmet : met.Reachable := .after (.after (.after hjoined _) _) _
  have hm : m.Reachable := .after (.after (.after (.after hmet _) _) _) _
  have hopen : m.isHost = true ∧ m.election.active = true := by decide
  exact absurd (h m hm hopen.1) (by simp [hopen.2])

end Parley.Member

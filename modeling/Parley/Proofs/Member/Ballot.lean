import Parley.Proofs.Member.Tally

/-!
# The votes that a member casts

When an election begins, a member votes for the first in rank, if that is somebody else and there is a connection
(`Member.favourite?`). An election takes a while, and another one may come first in rank before it is over: the first one
leaves, another ranking is told, or the member itself turns out to be elsewhere. It is expected that the vote follows.

It does not. No vote is sent while an election is on, and one when it begins (`Member.polls_after`; before it, one lemma for
each handler). Beside the member a `Canvass` keeps for whom it could vote when its election began, and whom it has sent votes
to since. The two are always the same (`Canvass.asked_iff_favourite`), whoever comes first in rank later
(`Canvass.heir_unasked`).
-/

namespace Parley

/-- Whom a vote goes to. -/
def Effect.vote? : Effect → Option Recipient
  | .send r .leaderVote => some r
  | _ => none

/-- Whom the votes among effects go to. -/
def Effect.votes (effects : List Effect) : List Recipient := effects.filterMap Effect.vote?

theorem Effect.votes_append (es fs : List Effect) : votes (es ++ fs) = votes es ++ votes fs := List.filterMap_append

theorem Effect.votes_map {α : Type} {f : α → Effect} (hf : ∀ a, (f a).vote? = none) (as : List α) :
    votes (as.map f) = [] := by
  refine List.filterMap_eq_nil_iff.2 fun e he => ?_
  obtain ⟨a, -, rfl⟩ := List.mem_map.1 he
  exact hf a

/-- A connection that leads to an endpoint leads to somebody who listens there. -/
theorem PeerTable.exists_get?_of_find? {t : PeerTable} {a : Endpoint} {id : ConnectionId} (h : t.byConnection.Sorted)
    (hf : t.find? a = some id) : ∃ u, t.get? id = some u ∧ u.addr = a := by
  obtain ⟨e, he, rfl⟩ := Option.map_eq_some_iff.1 hf
  exact ⟨e.2, SortedMap.get?_of_mem h (List.mem_of_find?_eq_some he), by simpa using List.find?_some he⟩

namespace Member

variable {m : Member} {x : Member × List Effect}

/-- The connection to the first in rank, if that is another member. -/
def preferred? (m : Member) : Option ConnectionId :=
  if m.ranking.head.same m.me then none else m.peers.find? m.ranking.head.addr

/-- Where the first in rank listens, if that is another member and there is a connection. -/
def favourite? (m : Member) : Option Endpoint := m.preferred?.map fun _ => m.ranking.head.addr

/-- Where those listen who are sent a vote, as far as this is known, by the table after the input. -/
def asked (m : Member) (i : Input) : List (Option Endpoint) :=
  ((Effect.votes (m.effectsOf i)).flatMap (m.after i).resolve).map fun id =>
    ((m.after i).peers.get? id).map Identity.addr

/-- What a handler does about votes: while an election is on none is sent, and when one begins the first in rank gets one. -/
structure Polls (m : Member) (x : Member × List Effect) : Prop where
  silent : m.election.active = true → Effect.votes x.2 = []
  opens : m.election.active = false → x.1.election.active = true →
    Effect.votes x.2 = x.1.preferred?.toList.map .connection

/-- A handler sends no vote and begins no election. -/
structure Calm (m : Member) (x : Member × List Effect) : Prop where
  election : x.1.election = m.election ∨ x.1.election = .idle
  votes : Effect.votes x.2 = []

theorem Calm.polls (c : m.Calm x) : m.Polls x := by
  refine ⟨fun _ => c.votes, fun hoff hon => ?_⟩
  rcases c.election with he | he
  · rw [he, hoff] at hon
    cases hon
  · rw [he] at hon
    cases hon

/-! ## Handlers that begin no election -/

theorem calm_self (m : Member) : m.Calm (m, []) := ⟨.inl rfl, rfl⟩

/-- What a member tells the directory of its room is no vote. -/
theorem votes_advert {advert : Message} (h : m.advert? = some advert) (r : Recipient) (effects : List Effect) :
    Effect.votes (.send r advert :: effects) = Effect.votes effects := by
  obtain ⟨k, -, rfl⟩ := Option.map_eq_some_iff.1 h
  split <;> rfl

theorem calm_tryNextCandidate (m : Member) : m.Calm m.tryNextCandidate := by
  unfold tryNextCandidate
  split
  · exact ⟨.inl rfl, rfl⟩
  · unfold becomeHost
    dsimp only
    split
    · rename_i hadvert
      exact ⟨.inl rfl, votes_advert hadvert _ _⟩
    · exact ⟨.inl rfl, rfl⟩

theorem calm_onRoomList (m : Member) (entries : List Bytes) : m.Calm (m.onRoomList entries) := by
  unfold onRoomList
  split
  · exact calm_self m
  · exact ⟨(calm_tryNextCandidate _).election, (calm_tryNextCandidate _).votes⟩

theorem calm_onHello (m : Member) (id : ConnectionId) (user : Identity) : m.Calm (m.onHello id user) := by
  have hjoined (b : Bool) : Effect.votes (if b then [] else [.notify (.peerJoined user)]) = [] := by
    cases b <;> rfl
  unfold onHello register
  dsimp only
  split
  · refine ⟨.inl rfl, ?_⟩
    rw [Effect.votes_append, Effect.votes_append, Effect.votes_map fun _ => rfl, hjoined]
    rfl
  · refine ⟨.inl rfl, ?_⟩
    rw [Effect.votes_append, Effect.votes_map fun _ => rfl, hjoined]
    rfl

theorem calm_onUserInfo (m : Member) (user : Identity) : m.Calm (m.onUserInfo user) := by
  unfold onUserInfo
  split <;> exact ⟨.inl rfl, rfl⟩

theorem calm_onAck (m : Member) (info : String) : m.Calm (m.onAck info) := by
  unfold onAck
  dsimp only
  split <;> exact ⟨.inl rfl, Effect.votes_map (fun _ => rfl) _⟩

theorem calm_onLeader (m : Member) (id : ConnectionId) (sender : Endpoint) : m.Calm (m.onLeader id sender) := by
  unfold onLeader
  dsimp only
  split <;> exact ⟨.inr rfl, rfl⟩

theorem calm_onChat (m : Member) (sender : Option Identity) (timestamp : UInt64) (message : Message) :
    m.Calm (m.onChat sender timestamp message) := by
  unfold onChat
  split <;> exact ⟨.inl rfl, rfl⟩

theorem calm_leave (m : Member) : m.Calm m.leave := by
  refine ⟨.inr rfl, ?_⟩
  unfold leave
  dsimp only
  rw [Effect.votes_append, Effect.votes_append, Effect.votes_map fun _ => rfl, Effect.votes_map fun _ => rfl,
    Effect.votes_map fun _ => rfl]
  rfl

theorem calm_poll (m : Member) : m.Calm m.poll := ⟨.inl rfl, Effect.votes_map (fun _ => rfl) _⟩

theorem calm_onConnected (m : Member) (id : ConnectionId) (role : Role) : m.Calm (m.onConnected id role) := by
  cases role with
  | discover => exact ⟨.inl rfl, rfl⟩
  | advertise =>
    unfold onConnected
    dsimp only
    split
    · rename_i hadvert
      exact ⟨.inl rfl, votes_advert hadvert _ _⟩
    · exact ⟨.inl rfl, rfl⟩
  | roomHost user | member user =>
    refine ⟨.inl rfl, ?_⟩
    unfold onConnected register
    dsimp only
    rw [Effect.votes_append, Effect.votes_map fun _ => rfl]
    rfl

theorem calm_onConnectFailed (m : Member) (role : Role) : m.Calm (m.onConnectFailed role) := by
  cases role with
  | discover | advertise | member user => exact ⟨.inl rfl, rfl⟩
  | roomHost user => exact calm_tryNextCandidate m

/-! ## Handlers that may begin one -/

/-- Starting an election, the member votes for the first in rank, unless one is on. -/
theorem votes_startElection (m : Member) :
    Effect.votes m.startElection.2 = if m.election.active then [] else m.preferred?.toList.map .connection := by
  unfold startElection preferred?
  dsimp only
  split
  · rfl
  · split
    · rfl
    · cases m.peers.find? m.ranking.head.addr <;> rfl

theorem polls_startElection (m : Member) : m.Polls m.startElection := by
  have hvotes := votes_startElection m
  have hpreferred : m.startElection.1.preferred? = m.preferred? := by
    rw [startElection_fst]
    rfl
  refine ⟨fun hon => ?_, fun hoff _ => ?_⟩
  · rw [hvotes, if_pos hon]
  · rw [hvotes, hpreferred, hoff]
    rfl

/-- What is done first sends no vote. -/
theorem Polls.prepend (h : m.Polls x) (es : List Effect) (hes : Effect.votes es = []) : m.Polls (x.1, es ++ x.2) := by
  have hvotes : Effect.votes (es ++ x.2) = Effect.votes x.2 := by
    rw [Effect.votes_append, hes, List.nil_append]
  refine ⟨fun hon => hvotes.trans (h.silent hon), fun hoff hon => hvotes.trans (h.opens hoff hon)⟩

/-- The table, the ranking and the host may have been changed before. -/
theorem Polls.of_election_eq {m' : Member} (h : m'.Polls x) (he : m'.election = m.election) : m.Polls x :=
  ⟨fun hon => h.silent (he ▸ hon), fun hoff => h.opens (he ▸ hoff)⟩

theorem polls_forget (m : Member) (user : Identity) (announce : Bool) : m.Polls (m.forget user announce) := by
  have hsaid (b : Bool) :
      Effect.votes (.notify (.peerLeft user) :: if b then [.send .allPeers (.deadUser user)] else []) = [] := by
    cases b <;> rfl
  unfold forget
  dsimp only
  split
  · exact ((polls_startElection _).prepend _ (hsaid _)).of_election_eq rfl
  · exact Calm.polls ⟨.inl rfl, hsaid _⟩

theorem polls_onDeadUser (m : Member) (user : Identity) : m.Polls (m.onDeadUser user) := by
  unfold onDeadUser
  split
  · exact (calm_self m).polls
  · split
    · rename_i dead _
      exact ((polls_forget _ _ false).prepend [.disconnect dead] rfl).of_election_eq rfl
    · split
      · exact polls_forget m user false
      · exact (calm_self m).polls

theorem polls_onBye (m : Member) (id : ConnectionId) : m.Polls (m.onBye id) := by
  unfold onBye
  split
  · exact ((polls_forget _ _ false).prepend [.disconnect id] rfl).of_election_eq rfl
  · exact Calm.polls ⟨.inl rfl, rfl⟩

theorem polls_onClosed (m : Member) (id : ConnectionId) : m.Polls (m.onClosed id) := by
  unfold onClosed
  split
  · exact Calm.polls ⟨.inl rfl, rfl⟩
  · split
    · exact (polls_forget _ _ true).of_election_eq rfl
    · exact (calm_self m).polls

theorem polls_onVote (m : Member) : m.Polls m.onVote := by
  have hacclaim : Effect.votes (.send .allPeers .leader :: .notify (.leaderElected m.me) ::
      if m.roomToken.isSome && m.directory.isNone then [m.connectDirectory] else []) = [] := by
    split <;> rfl
  have hsnd : Effect.votes m.onVote.2 = Effect.votes m.startElection.2 := by
    rw [onVote_snd, Effect.votes_append]
    split
    · exact (congrArg _ hacclaim).trans (List.append_nil _)
    · exact List.append_nil _
  rw [votes_startElection] at hsnd
  refine ⟨fun hon => hsnd.trans (if_pos hon), fun hoff hon => ?_⟩
  rw [hsnd, hoff]
  -- A member that has won has no election on.
  rw [onVote_fst] at hon ⊢
  split at hon
  · cases hon
  · rename_i hshort
    rw [if_neg hshort]
    rfl

theorem polls_act (m : Member) (id : ConnectionId) (e : Envelope) : m.Polls (m.act id e) := by
  obtain ⟨sender, message⟩ := e
  cases message with
  | hello user => exact (calm_onHello m id user).polls
  | userInfo user => exact (calm_onUserInfo m user).polls
  | yourInfo user =>
    unfold act
    dsimp only
    split
    · exact Calm.polls ⟨.inl rfl, rfl⟩
    · exact (calm_self m).polls
  | roomList entries =>
    unfold act
    dsimp only
    split
    · exact (calm_onRoomList m entries).polls
    · exact (calm_self m).polls
  | ack info => exact (calm_onAck m info).polls
  | rankOrder users => exact Calm.polls ⟨.inl rfl, rfl⟩
  | deadUser user => exact polls_onDeadUser m user
  | bye => exact polls_onBye m id
  | leaderVote => exact polls_onVote m
  | leader => exact (calm_onLeader m id sender).polls
  | chat | hostRoom | requestRoomList | process | queue | hostUpdated | sealed => exact (calm_self m).polls

theorem polls_onMessage (m : Member) (id : ConnectionId) (e : Envelope) : m.Polls (m.onMessage id e) := by
  unfold onMessage
  dsimp only
  split
  · exact (calm_onChat m _ _ _).polls
  · exact (polls_act m id e).prepend [.notify (.messageReceived (m.peers.get? id) e.message)] rfl

/-- **No vote is sent while an election is on**, and when one begins the vote goes to the first in rank, if that is another
member and there is a connection. -/
theorem polls_after (m : Member) (i : Input) : m.Polls (m.after i, m.effectsOf i) := by
  cases i with
  | join k =>
    rw [effectsOf_join, after_join]
    split <;> exact Calm.polls ⟨.inl rfl, rfl⟩
  | chat text =>
    rw [effectsOf_chat, after_chat]
    split <;> exact Calm.polls ⟨.inl rfl, rfl⟩
  | abortJoin => exact Calm.polls ⟨.inl rfl, rfl⟩
  | leave => exact (calm_leave m).polls
  | poll => exact (calm_poll m).polls
  | connected id role => exact (calm_onConnected m id role).polls
  | connectFailed role => exact (calm_onConnectFailed m role).polls
  | closed id => exact polls_onClosed m id
  | received id e => exact polls_onMessage m id e

/-! ## Votes over a run -/

/-- Nobody is asked where no vote is sent. -/
theorem asked_of_active {i : Input} (h : m.election.active = true) : m.asked i = [] := by
  rw [asked, (polls_after m i).silent h]
  rfl

/-- When an election begins, the first in rank is asked. -/
theorem asked_of_opens {i : Input} (t : (m.after i).Tidy) (hoff : m.election.active = false)
    (hon : (m.after i).election.active = true) : m.asked i = (m.after i).favourite?.toList.map some := by
  have hvotes : Effect.votes (m.effectsOf i) = (m.after i).preferred?.toList.map .connection :=
    (polls_after m i).opens hoff hon
  rw [asked, hvotes, favourite?]
  cases hp : (m.after i).preferred? with
  | none => rfl
  | some id =>
    have hfind : (m.after i).peers.find? (m.after i).ranking.head.addr = some id := by
      unfold preferred? at hp
      split at hp
      · cases hp
      · exact hp
    obtain ⟨u, hget, haddr⟩ := PeerTable.exists_get?_of_find? t.sorted hfind
    simp [resolve, hget, haddr]

/-- A member, with the one that it could vote for when its election began, and those that it has sent votes to since. -/
structure Canvass where
  member : Member
  favourite : Option Endpoint
  asked : List (Option Endpoint)

namespace Canvass

variable {c : Canvass}

/-- A member outside any room has no election. -/
def start (me : Identity) (directoryAddr : SocketAddress) : Canvass := ⟨outside me directoryAddr, none, []⟩

/-- The canvass after an input. Votes are kept while the election is on, and the one that could be voted for as it was when
the election began. -/
def after (c : Canvass) (i : Input) : Canvass where
  member := c.member.after i
  favourite := if c.member.election.active then c.favourite else (c.member.after i).favourite?
  asked := if (c.member.after i).election.active then c.asked ++ c.member.asked i else []

/-- While an election is on, the votes are those that it began with; otherwise there are none. -/
structure Fixed (c : Canvass) : Prop where
  tidy : c.member.Tidy
  active : c.member.election.active = true → c.asked = c.favourite.toList.map some
  idle : c.member.election.active = false → c.asked = []

theorem Fixed.after (h : c.Fixed) (i : Input) : (c.after i).Fixed := by
  have t := h.tidy.after i
  refine ⟨t, fun hon => ?_, fun hoff => ?_⟩
  · have hasked : (c.after i).asked = c.asked ++ c.member.asked i := if_pos hon
    have hfavourite : (c.after i).favourite =
      if c.member.election.active then c.favourite else (c.member.after i).favourite? := rfl
    rw [hasked, hfavourite]
    cases hbefore : c.member.election.active with
    | true => rw [asked_of_active hbefore, List.append_nil, h.active hbefore, if_pos rfl]
    | false =>
      rw [h.idle hbefore, List.nil_append, asked_of_opens t hbefore hon]
      rfl
  · exact if_neg (Bool.eq_false_iff.1 hoff)

theorem fixed_foldl (me : Identity) (directoryAddr : SocketAddress) (is : List Input) :
    (is.foldl after (start me directoryAddr)).Fixed := by
  have hstart : (start me directoryAddr).Fixed := ⟨tidy_outside me directoryAddr, nofun, fun _ => rfl⟩
  exact List.foldlRecOn is after hstart fun _ h i _ => h.after i

/-- **Whom a vote has been sent to.** While an election is on, a member has sent one vote, to the one that it could vote for
when the election began, or none if there was nobody. So whoever it could vote for now has been sent a vote exactly if it is
still that one. -/
theorem asked_iff_favourite {me : Identity} {directoryAddr : SocketAddress} {is : List Input}
    (hon : (is.foldl after (start me directoryAddr)).member.election.active = true) :
    let c := is.foldl after (start me directoryAddr)
    c.asked = c.favourite.toList.map some ∧
      ∀ a, c.member.favourite? = some a → (some a ∈ c.asked ↔ c.favourite = c.member.favourite?) := by
  intro c
  have hasked : c.asked = c.favourite.toList.map some := (fixed_foldl me directoryAddr is).active hon
  refine ⟨hasked, fun a ha => ?_⟩
  rw [hasked, ha]
  simp

end Canvass

/-- Inputs by which a member joins a room where two others stand between it and the host, meets both, and loses the host. -/
def succession : List Input :=
  let ann : Identity := ⟨"ann", ⟨.loopback, 7001⟩⟩
  let bob : Identity := ⟨"bob", ⟨.loopback, 7002⟩⟩
  let cyd : Identity := ⟨"cyd", ⟨.loopback, 7003⟩⟩
  [.join ⟨RoomKey.zeroBlock⟩, .connected 1 (.roomHost ann),
    .received 1 ⟨ann.addr, .rankOrder [ann, bob, cyd, ⟨"dee", ⟨.loopback, 7004⟩⟩]⟩, .received 2 ⟨bob.addr, .hello bob⟩,
    .received 3 ⟨cyd.addr, .hello cyd⟩, .closed 1]

namespace Canvass

/-- The host is gone, and the first of those that are left is asked. -/
theorem asked_iff_favourite_succession :
    let c := succession.foldl after (start ⟨"dee", ⟨.loopback, 7004⟩⟩ (.v4 ⟨.loopback, 7000⟩))
    c.member.election.active = true ∧ c.member.favourite? = some ⟨.loopback, 7002⟩ ∧
      c.asked = [some ⟨.loopback, 7002⟩] ∧ (some ⟨.loopback, 7002⟩ ∈ c.asked ↔ c.favourite = c.member.favourite?) := by
  intro c
  have hon : c.member.election.active = true := by decide
  have hfavourite : c.member.favourite? = some ⟨.loopback, 7002⟩ := by decide
  have hbegan : c.favourite = some ⟨.loopback, 7002⟩ := by decide
  obtain ⟨hasked, hiff⟩ := asked_iff_favourite hon
  refine ⟨hon, hfavourite, ?_, hiff _ hfavourite⟩
  show c.asked = _
  rw [hasked]
  rw [hbegan]
  rfl

/-- The first of those that are left is gone too, and the next one is not asked. -/
theorem heir_unasked :
    ¬ ∀ (me : Identity) (directoryAddr : SocketAddress) (is : List Input) (a : Endpoint),
      let c := is.foldl after (start me directoryAddr)
      c.member.election.active = true → c.member.favourite? = some a → some a ∈ c.asked := by
  intro h
  have hmem := h ⟨"dee", ⟨.loopback, 7004⟩⟩ (.v4 ⟨.loopback, 7000⟩) (succession ++ [.closed 2]) ⟨.loopback, 7003⟩
    (by decide) (by decide)
  exact absurd hmem (by decide)

end Canvass
end Member
end Parley

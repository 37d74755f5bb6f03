import Parley.Proofs.Member.Reachable
import Parley.Proofs.Message.Canonical

/-!
# What members say

A member says what it has been told: the identities of others, which came in greetings, announcements, rankings and
adverts, and the token of its room, which came in an acknowledgement. What was read in one message can be written in
another one, with one exception. An acknowledgement holds any text, but in an update of an advert the token ends at the
first space. So every message of a member reads back, or is an update with a token that somebody told it and that holds a
space (`Discourse.Run.readable`). Nobody reads such an update as it was meant (`Discourse.misread_update`).

One input leaves a member `Fluent`, which is to say that all names in it can travel and that its token was told, and what
it wants done is sayable (`Member.Fluent.step`); this carries over to whole runs (`Discourse.Run.sound`).
-/

namespace Parley

/-- The user whom a connection is for has a name that can travel. -/
def Role.IsValid : Role → Prop
  | .roomHost user | .member user => Identity.isValidName user.name = true
  | .discover | .advertise => True

/-- The message that an effect sends. -/
def Effect.sent? : Effect → Option Message
  | .send _ message => some message
  | .connect _ _ | .disconnect _ | .notify _ => none

/-- A message that can travel, or an update with a token that was told and holds a space. -/
def Message.Sayable (told : List String) (m : Message) : Prop :=
  m.isWireValid = true ∨ ∃ token payload, m = .hostUpdated token payload ∧ token ∈ told ∧ ' ' ∈ token.toList

theorem Message.Sayable.mono {told more : List String} {m : Message} (h : m.Sayable told) (hsub : told ⊆ more) :
    m.Sayable more :=
  h.imp_right fun ⟨token, payload, hm, htold, hspace⟩ => ⟨token, payload, hm, hsub htold, hspace⟩

/-- What is sent is sayable, and connections are asked for to users with names that can travel. -/
def Effect.Sayable (told : List String) : Effect → Prop
  | .send _ message => message.Sayable told
  | .connect _ role => role.IsValid
  | .disconnect _ | .notify _ => True

namespace Member

/-- The user has a name that can travel. -/
abbrev Valid (u : Identity) : Prop := Identity.isValidName u.name = true

/-- All names that a member knows can travel, and the token is one that it was told. -/
structure Fluent (told : List String) (m : Member) : Prop where
  me : Valid m.me
  peers : ∀ u ∈ m.peers.users, Valid u
  ranking : ∀ u ∈ m.ranking.users, Valid u
  candidates : ∀ u ∈ m.candidates, Valid u
  roomToken : ∀ token, m.roomToken = some token → token.toList ≠ [] ∧ token ∈ told

/-- The member is fluent and what it wants done sayable. -/
structure Speaks (told : List String) (r : Member × List Effect) : Prop where
  member : r.1.Fluent told
  effects : ∀ e ∈ r.2, e.Sayable told

end Member

/-! ## Names in tables and adverts -/

/-- Nobody but the one who is registered is new in a table. -/
theorem PeerTable.mem_users_insert {t : PeerTable} {id : ConnectionId} {u v : Identity} (h : v ∈ (t.insert id u).users) :
    v = u ∨ v ∈ t.users := by
  unfold PeerTable.insert at h
  split at h
  all_goals
    obtain ⟨e, he, rfl⟩ := List.mem_map.1 h
    rcases SortedMap.mem_insertEntry he with rfl | he
    · exact .inl rfl
  · exact .inr (List.mem_map_of_mem (List.mem_of_mem_filter he))
  · exact .inr (List.mem_map_of_mem he)

theorem PeerTable.mem_users_erase {t : PeerTable} {id : ConnectionId} {v : Identity} (h : v ∈ (t.erase id).users) :
    v ∈ t.users := by
  obtain ⟨e, he, rfl⟩ := List.mem_map.1 h
  exact List.mem_map_of_mem (List.mem_of_mem_filter he)

/-- The name in an advert that can be opened can travel. -/
theorem RoomKey.isValidName_of_openAdvert {k : RoomKey} {entry : Bytes} {u : Identity} (h : k.openAdvert entry = .ok u) :
    Identity.isValidName u.name = true := by
  obtain ⟨plain, -, h⟩ := Text.exists_of_bind_eq_ok h
  obtain ⟨text, -, h⟩ := Text.exists_of_bind_eq_ok h
  unfold ofPlain at h
  split at h
  · rename_i hu
    cases h
    exact Identity.isValidName_of_ofWire hu
  · cases h

namespace Member

variable {m : Member} {told : List String} {u user : Identity}

/-! ## Departures and elections -/

/-- The host, the clock, the election and the connection to the directory hold no names. -/
theorem Fluent.update (h : m.Fluent told) (e : Election) (b : Bool) (a : Option Endpoint) (c : Clock)
    (d : Option ConnectionId) :
    Fluent told { m with election := e, isHost := b, host := a, clock := c, directory := d } :=
  ⟨h.me, h.peers, h.ranking, h.candidates, h.roomToken⟩

theorem Fluent.erase (h : m.Fluent told) (id : ConnectionId) : Fluent told { m with peers := m.peers.erase id } :=
  ⟨h.me, fun u hu => h.peers u (PeerTable.mem_users_erase hu), h.ranking, h.candidates, h.roomToken⟩

/-- What was told once may be said for ever. -/
theorem Fluent.mono {more : List String} (h : m.Fluent told) (hsub : told ⊆ more) : m.Fluent more :=
  ⟨h.me, h.peers, h.ranking, h.candidates, fun token ht => (h.roomToken token ht).imp_right fun hm => hsub hm⟩

/-- What is said first is sayable too. -/
theorem Speaks.prepend {r : Member × List Effect} {es : List Effect} (h : Speaks told r)
    (hes : ∀ e ∈ es, e.Sayable told) : Speaks told (r.1, es ++ r.2) :=
  ⟨h.member, List.forall_mem_append.2 ⟨hes, h.effects⟩⟩

theorem Speaks.cons {r : Member × List Effect} {e : Effect} (h : Speaks told r) (he : e.Sayable told) :
    Speaks told (r.1, e :: r.2) := h.prepend (List.forall_mem_singleton.2 he)

theorem Fluent.startElection (h : m.Fluent told) : Speaks told m.startElection := by
  unfold Member.startElection
  dsimp only
  split
  · exact ⟨h, nofun⟩
  · have hstart := h.update m.election.start m.isHost m.host m.clock m.directory
    split
    · exact ⟨hstart, nofun⟩
    · split
      · exact ⟨hstart, List.forall_mem_singleton.2 (.inl rfl)⟩
      · exact ⟨hstart, nofun⟩

theorem Fluent.becomeLeader (h : m.Fluent told) : Speaks told m.becomeLeader := by
  refine ⟨h.update .idle true (some m.me.addr) m.clock m.directory, ?_⟩
  unfold Member.becomeLeader
  refine List.forall_mem_append.2 ⟨?_, ?_⟩
  · exact List.forall_mem_cons.2 ⟨.inl rfl, List.forall_mem_singleton.2 trivial⟩
  · split
    · exact List.forall_mem_singleton.2 trivial
    · nofun

theorem Fluent.onVote (h : m.Fluent told) : Speaks told m.onVote := by
  have hs := h.startElection
  have hcount := hs.member.update m.startElection.1.election.countVote m.startElection.1.isHost m.startElection.1.host
    m.startElection.1.clock m.startElection.1.directory
  unfold Member.onVote
  dsimp only
  split
  · exact hcount.becomeLeader.prepend hs.effects
  · exact ⟨hcount, hs.effects⟩

theorem Fluent.onLeader (h : m.Fluent told) (id : ConnectionId) (sender : Endpoint) :
    Speaks told (m.onLeader id sender) := by
  unfold Member.onLeader
  dsimp only
  split
  · exact ⟨h.update .idle false _ m.clock m.directory, List.forall_mem_singleton.2 trivial⟩
  · exact ⟨h.update .idle false _ m.clock m.directory, nofun⟩

theorem Fluent.forget (h : m.Fluent told) (user : Identity) (announce : Bool) (hu : announce = true → Valid user) :
    Speaks told (m.forget user announce) := by
  have hremove : Fluent told { m with ranking := m.ranking.remove user.addr } :=
    ⟨h.me, h.peers, fun u hu => h.ranking u (Ranking.mem_users_remove hu), h.candidates, h.roomToken⟩
  have heffects : ∀ e ∈ Effect.notify (.peerLeft user) ::
      (if announce && m.isHost then [Effect.send .allPeers (.deadUser user)] else []), e.Sayable told := by
    refine List.forall_mem_cons.2 ⟨trivial, ?_⟩
    split
    · rename_i ha
      rw [Bool.and_eq_true] at ha
      exact List.forall_mem_singleton.2 (.inl (hu ha.1))
    · nofun
  unfold Member.forget
  dsimp only
  split
  · exact (hremove.update m.election m.isHost none m.clock m.directory).startElection.prepend heffects
  · exact ⟨hremove, heffects⟩

/-! ## Joining -/

theorem Fluent.sayable_advert (h : m.Fluent told) {advert : Message} (ha : m.advert? = some advert) :
    advert.Sayable told := by
  obtain ⟨k, -, rfl⟩ := Option.map_eq_some_iff.1 ha
  split
  · rename_i token ht
    obtain ⟨hne, htold⟩ := h.roomToken token ht
    by_cases hspace : ' ' ∈ token.toList
    · exact .inr ⟨token, _, rfl, htold, hspace⟩
    · exact .inl (by simp [Message.isWireValid, hne, hspace])
  · exact .inl rfl

theorem Fluent.becomeHost (h : m.Fluent told) : Speaks told m.becomeHost := by
  have hhost := h.update m.election true (some m.me.addr) .start m.directory
  refine ⟨hhost, List.forall_mem_cons.2 ⟨?_, List.forall_mem_singleton.2 trivial⟩⟩
  split
  · rename_i advert _ ha
    exact hhost.sayable_advert ha
  · trivial

theorem Fluent.tryNextCandidate (h : m.Fluent told) : Speaks told m.tryNextCandidate := by
  unfold Member.tryNextCandidate
  split
  · rename_i host rest hc
    have hall := h.candidates
    rw [hc, List.forall_mem_cons] at hall
    exact ⟨⟨h.me, h.peers, h.ranking, hall.2, h.roomToken⟩, List.forall_mem_singleton.2 hall.1⟩
  · exact h.becomeHost

theorem Fluent.onRoomList (h : m.Fluent told) (entries : List Bytes) : Speaks told (m.onRoomList entries) := by
  unfold Member.onRoomList
  split
  · exact ⟨h, nofun⟩
  · rename_i k _
    refine Fluent.tryNextCandidate ⟨h.me, h.peers, h.ranking, fun u hu => ?_, h.roomToken⟩
    obtain ⟨e, -, he⟩ := List.mem_filterMap.1 (List.mem_of_mem_filter hu)
    rcases hopen : k.openAdvert e with f | host <;> rw [hopen] at he <;> cases he
    exact RoomKey.isValidName_of_openAdvert hopen

/-- Whoever is registered by a name that can travel does no harm. -/
theorem Fluent.register (h : m.Fluent told) (id : ConnectionId) (hu : Valid user) : Speaks told (m.register id user) := by
  refine ⟨⟨h.me, fun v hv => ?_, h.ranking, h.candidates, h.roomToken⟩, fun e he => ?_⟩
  · rcases PeerTable.mem_users_insert hv with rfl | hv
    · exact hu
    · exact h.peers v hv
  · obtain ⟨_, -, rfl⟩ := List.mem_map.1 he
    trivial

theorem Fluent.push (h : m.Fluent told) (hu : Valid user) : Fluent told { m with ranking := m.ranking.push user } := by
  refine ⟨h.me, h.peers, fun v hv => ?_, h.candidates, h.roomToken⟩
  rcases Ranking.mem_users_push hv with rfl | hv
  · exact hu
  · exact h.ranking v hv

theorem Fluent.onHello (h : m.Fluent told) (id : ConnectionId) (hu : Valid user) : Speaks told (m.onHello id user) := by
  have hr := h.register id hu
  have hp := hr.member.push hu
  have hjoined : ∀ e ∈ (m.register id user).2 ++
      (if (m.peers.get? id).any (Identity.same user) then [] else [Effect.notify (.peerJoined user)]),
      e.Sayable told := by
    refine List.forall_mem_append.2 ⟨hr.effects, ?_⟩
    split
    · nofun
    · exact List.forall_mem_singleton.2 trivial
  unfold Member.onHello
  dsimp only
  split
  · refine ⟨hp, List.forall_mem_append.2 ⟨hjoined, ?_⟩⟩
    simp only [List.forall_mem_cons]
    exact ⟨.inl hu, .inl h.me, .inl (List.all_eq_true.2 hp.ranking), .inl rfl, nofun⟩
  · exact ⟨hr.member, hjoined⟩

theorem Fluent.onConnected (h : m.Fluent told) (id : ConnectionId) {role : Role} (hr : role.IsValid) :
    Speaks told (m.onConnected id role) := by
  cases role with
  | discover =>
    refine ⟨h.update m.election m.isHost m.host m.clock (some id), ?_⟩
    exact List.forall_mem_cons.2 ⟨.inl h.me, List.forall_mem_singleton.2 (.inl rfl)⟩
  | advertise =>
    unfold Member.onConnected
    dsimp only
    split
    · rename_i advert ha
      exact ⟨h.update m.election m.isHost m.host m.clock (some id), List.forall_mem_singleton.2 (h.sayable_advert ha)⟩
    · exact ⟨h.update m.election m.isHost m.host m.clock none, List.forall_mem_singleton.2 trivial⟩
  | roomHost host =>
    have hjoin : Fluent told { m with candidates := [], clock := .unsynced, host := some host.addr } :=
      ⟨h.me, h.peers, h.ranking, nofun, h.roomToken⟩
    have hreg := hjoin.register id hr
    refine ⟨hreg.member.push hr, List.forall_mem_append.2 ⟨hreg.effects, ?_⟩⟩
    simp only [List.forall_mem_cons]
    exact ⟨.inl h.me, trivial, trivial, nofun⟩
  | member user =>
    have hreg := h.register id hr
    refine ⟨hreg.member.push hr, List.forall_mem_append.2 ⟨hreg.effects, ?_⟩⟩
    simp only [List.forall_mem_cons]
    exact ⟨.inl h.me, trivial, nofun⟩

theorem Fluent.onConnectFailed (h : m.Fluent told) (role : Role) : Speaks told (m.onConnectFailed role) := by
  cases role with
  | discover | advertise => exact ⟨h, nofun⟩
  | roomHost host => exact h.tryNextCandidate
  | member user =>
    exact ⟨⟨h.me, h.peers, fun u hu => h.ranking u (Ranking.mem_users_remove hu), h.candidates, h.roomToken⟩, nofun⟩

/-! ## Messages -/

theorem Fluent.onDeadUser (h : m.Fluent told) (user : Identity) : Speaks told (m.onDeadUser user) := by
  unfold Member.onDeadUser
  split
  · exact ⟨h, nofun⟩
  · split
    · rename_i dead _
      exact ((h.erase dead).forget _ false (by simp)).cons (e := .disconnect dead) trivial
    · split
      · exact h.forget user false (by simp)
      · exact ⟨h, nofun⟩

theorem Fluent.onBye (h : m.Fluent told) (id : ConnectionId) : Speaks told (m.onBye id) := by
  unfold Member.onBye
  split
  · exact ((h.erase id).forget _ false (by simp)).cons (e := .disconnect id) trivial
  · exact ⟨h, List.forall_mem_singleton.2 trivial⟩

theorem Fluent.onAck (h : m.Fluent told) {info : String} (hi : info ∈ told) : Speaks told (m.onAck info) := by
  refine ⟨?_, fun e he => ?_⟩
  · unfold Member.onAck
    dsimp only
    split
    · exact h.update m.election m.isHost m.host m.clock none
    · rename_i hne
      refine ⟨h.me, h.peers, h.ranking, h.candidates, fun token ht => ?_⟩
      cases ht
      exact ⟨by simpa using hne, hi⟩
  · obtain ⟨_, -, rfl⟩ := List.mem_map.1 he
    trivial

theorem Fluent.setSelf (h : m.Fluent told) (hu : Valid user) : (m.setSelf user).Fluent told := by
  refine ⟨hu, h.peers, fun v hv => ?_, h.candidates, h.roomToken⟩
  rcases Ranking.mem_users_setSelf hv with rfl | hv
  · exact hu
  · exact h.ranking v hv

theorem Fluent.replace (h : m.Fluent told) {users : List Identity} (hu : ∀ u ∈ users, Valid u) :
    Fluent told { m with ranking := m.ranking.replace users m.me } := by
  refine ⟨h.me, h.peers, fun v hv => ?_, h.candidates, h.roomToken⟩
  rcases Ranking.mem_users_replace (r := m.ranking) hv with rfl | hv
  · exact h.me
  · exact hu v hv

/-- A message that can travel, and whose token has been noted, leaves a fluent member. -/
theorem Fluent.act (h : m.Fluent told) (id : ConnectionId) (e : Envelope) (hv : e.message.isWireValid = true)
    (ht : ∀ info, e.message = .ack info → info ∈ told) : Speaks told (m.act id e) := by
  obtain ⟨sender, message⟩ := e
  cases message with
  | hello user => exact h.onHello id hv
  | userInfo user =>
    show Speaks told (m.onUserInfo user)
    unfold onUserInfo
    split
    · exact ⟨h, nofun⟩
    · exact ⟨h, List.forall_mem_singleton.2 hv⟩
  | yourInfo user =>
    unfold Member.act
    dsimp only
    split
    · exact ⟨h.setSelf hv, nofun⟩
    · exact ⟨h, nofun⟩
  | roomList entries =>
    unfold Member.act
    dsimp only
    split
    · exact h.onRoomList entries
    · exact ⟨h, nofun⟩
  | ack info => exact h.onAck (ht info rfl)
  | rankOrder users => exact ⟨h.replace (List.all_eq_true.1 hv), nofun⟩
  | deadUser user => exact h.onDeadUser user
  | bye => exact h.onBye id
  | leaderVote => exact h.onVote
  | leader => exact h.onLeader id sender
  | chat | hostRoom | requestRoomList | process | queue | hostUpdated | sealed => exact ⟨h, nofun⟩

theorem Fluent.onMessage (h : m.Fluent told) (id : ConnectionId) (e : Envelope) (hv : e.message.isWireValid = true)
    (ht : ∀ info, e.message = .ack info → info ∈ told) : Speaks told (m.onMessage id e) := by
  unfold Member.onMessage
  dsimp only
  split
  · unfold onChat
    split
    · exact ⟨h.update m.election m.isHost m.host _ m.directory, List.forall_mem_singleton.2 trivial⟩
    · exact ⟨⟨h.me, h.peers, h.ranking, h.candidates, h.roomToken⟩, nofun⟩
  · exact (h.act id e hv ht).cons (e := .notify (.messageReceived (m.peers.get? id) e.message)) trivial

theorem Fluent.onClosed (h : m.Fluent told) (id : ConnectionId) : Speaks told (m.onClosed id) := by
  unfold Member.onClosed
  split
  · exact ⟨h.update m.election m.isHost m.host m.clock none, nofun⟩
  · split
    · rename_i user hu
      exact (h.erase id).forget user true fun _ => h.peers user (PeerTable.mem_users_of_get? hu)
    · exact ⟨h, nofun⟩

/-! ## Inputs -/

/-- The tokens that an input tells. -/
def Input.tokens : Input → List String
  | .received _ ⟨_, .ack info⟩ => [info]
  | _ => []

theorem Fluent.leave (h : m.Fluent told) : Speaks told m.leave := by
  refine ⟨⟨h.me, nofun, fun u hu => h.ranking u (List.mem_of_mem_filter hu), nofun, nofun⟩, fun e he => ?_⟩
  rcases List.mem_append.1 he with he | he
  · rcases List.mem_append.1 he with he | he
    · obtain ⟨_, -, rfl⟩ := List.mem_map.1 he
      exact .inl rfl
    · obtain ⟨_, -, rfl⟩ := List.mem_map.1 he
      trivial
  · obtain ⟨_, -, rfl⟩ := List.mem_map.1 he
    trivial

/-- What an input may hold: a message that can travel and whose token has been noted, or a user with a name that can
travel. -/
def Input.Sound (told : List String) : Input → Prop
  | .received _ e => e.message.isWireValid = true ∧ ∀ info, e.message = .ack info → info ∈ told
  | .connected _ role | .connectFailed role => role.IsValid
  | .join _ | .abortJoin | .chat _ | .leave | .poll | .closed _ => True

/-- One input leaves a fluent member, and what it wants done is sayable. -/
theorem Fluent.step (h : m.Fluent told) {i : Input} (hi : i.Sound told) : Speaks told (m.after i, m.effectsOf i) := by
  cases i with
  | join k =>
    have hkey : Fluent told { m with key := some k, clock := .start } :=
      ⟨h.me, h.peers, h.ranking, h.candidates, h.roomToken⟩
    rw [after_join, effectsOf_join]
    split
    · exact ⟨h, nofun⟩
    · exact ⟨hkey, nofun⟩
  | abortJoin => exact ⟨⟨h.me, h.peers, h.ranking, h.candidates, h.roomToken⟩, nofun⟩
  | chat text =>
    rw [after_chat, effectsOf_chat]
    split
    · exact ⟨h.update m.election m.isHost m.host _ m.directory, List.forall_mem_singleton.2 (.inl rfl)⟩
    · exact ⟨h, nofun⟩
  | leave => exact h.leave
  | poll =>
    refine ⟨⟨h.me, h.peers, h.ranking, h.candidates, h.roomToken⟩, fun e he => ?_⟩
    obtain ⟨_, -, rfl⟩ := List.mem_map.1 he
    trivial
  | connected id role => exact h.onConnected id hi
  | connectFailed role => exact h.onConnectFailed role
  | closed id => exact h.onClosed id
  | received id e => exact h.onMessage id e hi.1 hi.2

end Member

/-! ## Runs -/

/-- A member with the connections that it has asked for, the tokens that it has been told and the messages that it has
sent. -/
structure Discourse where
  member : Member
  asked : List Role
  told : List String
  sent : List Message

namespace Discourse

/-- A member that has just started. -/
def start (me : Identity) (directoryAddr : SocketAddress) : Discourse := ⟨.outside me directoryAddr, [], [], []⟩

def after (t : Discourse) (i : Member.Input) : Discourse :=
  let effects := t.member.effectsOf i
  ⟨t.member.after i, t.asked ++ effects.filterMap Effect.asked?, t.told ++ i.tokens,
    t.sent ++ effects.filterMap Effect.sent?⟩

/-- Messages have been read, and connections have been asked for, or lead to users with names that can travel. -/
def Admits (t : Discourse) : Member.Input → Prop
  | .received _ e => ∃ bs, Message.ofBody bs = .ok e.message
  | .connected _ role | .connectFailed role => role ∈ t.asked ∨ role.IsValid
  | .join _ | .abortJoin | .chat _ | .leave | .poll | .closed _ => True

/-- What a member with a name that can travel may be given. -/
inductive Run : Discourse → Prop
  | start {me : Identity} (h : Identity.isValidName me.name = true) (directoryAddr : SocketAddress) :
    Run (start me directoryAddr)
  | after {t : Discourse} (h : Run t) {i : Member.Input} (hi : t.Admits i) : Run (t.after i)

variable {t : Discourse}

/-- Everything that was said so far is sayable, and what is still to be said will be. -/
structure Sound (t : Discourse) : Prop where
  member : t.member.Fluent t.told
  asked : ∀ role ∈ t.asked, role.IsValid
  sent : ∀ m ∈ t.sent, m.Sayable t.told

theorem Sound.after (h : t.Sound) {i : Member.Input} (hi : t.Admits i) : (t.after i).Sound := by
  have hsub : t.told ⊆ t.told ++ i.tokens := List.subset_append_left ..
  have hin : i.Sound (t.told ++ i.tokens) := by
    cases i with
    | received id e =>
      obtain ⟨bs, hread⟩ := hi
      obtain ⟨sender, message⟩ := e
      refine ⟨Message.isWireValid_of_ofBody hread, fun info he => ?_⟩
      obtain rfl : message = .ack info := he
      exact List.mem_append_right _ (List.mem_singleton.2 rfl)
    | connected _ role | connectFailed role => exact hi.elim (h.asked role) id
    | join _ | abortJoin | chat _ | leave | poll | closed _ => trivial
  have hs := (h.member.mono hsub).step hin
  refine ⟨hs.member, fun role hr => ?_, fun m hm => ?_⟩
  · rcases List.mem_append.1 hr with hr | hr
    · exact h.asked role hr
    · obtain ⟨e, he, ha⟩ := List.mem_filterMap.1 hr
      have hsay := hs.effects e he
      cases e <;> cases ha
      exact hsay
  · rcases List.mem_append.1 hm with hm | hm
    · exact (h.sent m hm).mono hsub
    · obtain ⟨e, he, ha⟩ := List.mem_filterMap.1 hm
      have hsay := hs.effects e he
      cases e <;> cases ha
      exact hsay

theorem Run.sound (h : t.Run) : t.Sound := by
  induction h with
  | @start me hme _ =>
    exact ⟨⟨hme, nofun, List.forall_mem_singleton.2 hme, nofun, nofun⟩, nofun, nofun⟩
  | after _ hi ih => exact ih.after hi

/-- A member that joins a room, is told a token, wins an election and reaches the directory. -/
def takeover (token : String) : Discourse :=
  let joined := (start ⟨"ann", ⟨.loopback, 7001⟩⟩ (.v4 ⟨.loopback, 7000⟩)).after (.join ⟨RoomKey.zeroBlock⟩)
  let admitted := joined.after (.received 1 ⟨⟨.loopback, 7002⟩, .ack token⟩)
  (admitted.after (.received 1 ⟨⟨.loopback, 7002⟩, .leaderVote⟩)).after (.connected 2 .advertise)

theorem run_takeover (token : String) : (takeover token).Run := by
  have hstart : (start ⟨"ann", ⟨.loopback, 7001⟩⟩ (.v4 ⟨.loopback, 7000⟩)).Run := .start (by decide) _
  have hread (m : Message) (hm : m.isWireValid = true) : ∃ bs, Message.ofBody bs = .ok m :=
    ⟨_, Message.ofBody_bodyBytes hm⟩
  have hjoined := hstart.after (i := .join ⟨RoomKey.zeroBlock⟩) trivial
  have hadmitted := hjoined.after (i := .received 1 ⟨⟨.loopback, 7002⟩, .ack token⟩) (hread (.ack token) rfl)
  have hwon := hadmitted.after (i := .received 1 ⟨⟨.loopback, 7002⟩, .leaderVote⟩) (hread .leaderVote rfl)
  exact hwon.after (i := .connected 2 .advertise) (.inr trivial)

/-- **Everything that a member says can be read**, except for updates with a token that somebody told it and that holds a
space. -/
theorem Run.readable (h : t.Run) {m : Message} (hm : m ∈ t.sent) :
    m.isWireValid = true ∧ Message.ofBody m.bodyBytes = .ok m ∨
      ∃ token payload, m = .hostUpdated token payload ∧ token ∈ t.told ∧ ' ' ∈ token.toList ∧
        Message.ofBody m.bodyBytes ≠ .ok m := by
  rcases h.sound.sent m hm with hv | ⟨token, payload, rfl, htold, hspace⟩
  · exact .inl ⟨hv, Message.ofBody_bodyBytes hv⟩
  · refine .inr ⟨token, payload, rfl, htold, hspace, fun hread => ?_⟩
    have hv := Message.isWireValid_of_ofBody hread
    simp [Message.isWireValid, hspace] at hv

/-- The update of a room whose token is a word is read. -/
theorem readable_takeover :
    let advert := RoomKey.sealAdvert ⟨RoomKey.zeroBlock⟩ ⟨"ann", ⟨.loopback, 7001⟩⟩
    Message.ofBody (Message.bodyBytes (.hostUpdated "token" advert)) = .ok (.hostUpdated "token" advert) := by
  intro advert
  have hsent : .hostUpdated "token" advert ∈ (takeover "token").sent := List.mem_append_right _ List.mem_cons_self
  rcases Run.readable (run_takeover "token") hsent with hread | ⟨token, payload, he, -, hspace, -⟩
  · exact hread.2
  · cases he
    exact absurd hspace (by decide)

/-- The update of a room whose token is two words is not. -/
theorem misread_update :
    ¬ ∀ (t : Discourse) (m : Message), t.Run → m ∈ t.sent →
      m.isWireValid = true ∧ Message.ofBody m.bodyBytes = .ok m := by
  intro h
  have hsent : .hostUpdated "two words" (RoomKey.sealAdvert ⟨RoomKey.zeroBlock⟩ ⟨"ann", ⟨.loopback, 7001⟩⟩) ∈
      (takeover "two words").sent := List.mem_append_right _ List.mem_cons_self
  cases (h _ _ (run_takeover "two words") hsent).1

end Discourse
end Parley

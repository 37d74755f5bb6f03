import Parley.Proofs.Member.Reachable

/-!
# Leaving a room

A member that has left a room keeps nothing of it. Identities are compared by address; two members that differ only by the
names in their rankings are alike (`Member.Alike`), and alike members take every input alike: they become alike, and what
they want done is the same but for names (`Member.Alike.step`). A member that leaves is alike to one that was never in a
room, so whatever it is given from then on, nothing tells the two apart (`Member.leave_erases`).
-/

namespace Parley

/-! ## Leaving names out -/

/-- A member without its name. -/
def Identity.nameless (u : Identity) : Identity := ⟨"", u.addr⟩

/-- A message without the names in it. -/
def Message.nameless : Message → Message
  | hello u => hello u.nameless
  | userInfo u => userInfo u.nameless
  | yourInfo u => yourInfo u.nameless
  | rankOrder us => rankOrder (us.map Identity.nameless)
  | deadUser u => deadUser u.nameless
  | queue id inner => queue id inner.nameless
  | m => m

/-- An event without the names in it. -/
def Event.nameless : Event → Event
  | messageSent recipient m => messageSent (recipient.map Identity.nameless) m.nameless
  | messageReceived sender m => messageReceived (sender.map Identity.nameless) m.nameless
  | peerJoined u => peerJoined u.nameless
  | peerLeft u => peerLeft u.nameless
  | directoryResult became => directoryResult became
  | leaderElected u => leaderElected u.nameless

/-- A role without the name in it. -/
def Role.nameless : Role → Role
  | discover => discover
  | advertise => advertise
  | roomHost u => roomHost u.nameless
  | member u => member u.nameless

/-- An effect without the names in it. -/
def Effect.nameless : Effect → Effect
  | send recipient m => send recipient m.nameless
  | connect addr role => connect addr role.nameless
  | disconnect id => disconnect id
  | notify e => notify e.nameless

theorem Identity.map_nameless {us vs : List Identity} (h : us.map Identity.addr = vs.map Identity.addr) :
    us.map Identity.nameless = vs.map Identity.nameless := by
  have hn (us : List Identity) : us.map nameless = (us.map Identity.addr).map fun a => ⟨"", a⟩ := by
    rw [List.map_map]
    rfl
  rw [hn, hn, h]

namespace Member

/-! ## Alike members -/

/-- Members that differ at most by the names in their rankings. -/
def Alike (m n : Member) : Prop := ∃ r, m.ranking.Alike r ∧ n = { m with ranking := r }

/-- What comes of an input is the same but for names. -/
structure Agree (x y : Member × List Effect) : Prop where
  member : Alike x.1 y.1
  effects : x.2.map Effect.nameless = y.2.map Effect.nameless

variable {m n : Member}

theorem Agree.append {x y : Member × List Effect} (h : Agree x y) {es fs : List Effect}
    (hes : es.map Effect.nameless = fs.map Effect.nameless) : Agree (x.1, es ++ x.2) (y.1, fs ++ y.2) :=
  ⟨h.member, by rw [List.map_append, List.map_append, hes, h.effects]⟩

theorem Agree.cons {x y : Member × List Effect} (h : Agree x y) (e : Effect) : Agree (x.1, e :: x.2) (y.1, e :: y.2) :=
  h.append (rfl : [e].map Effect.nameless = [e].map Effect.nameless)

/-! ## Departures and elections -/

theorem Alike.startElection (h : Alike m n) : Agree m.startElection n.startElection := by
  obtain ⟨r, hr, rfl⟩ := h
  unfold Member.startElection Identity.same
  dsimp only
  rw [hr.head]
  split
  · exact ⟨⟨r, hr, rfl⟩, rfl⟩
  · split
    · exact ⟨⟨r, hr, rfl⟩, rfl⟩
    · split <;> exact ⟨⟨r, hr, rfl⟩, rfl⟩

theorem Alike.forget (h : Alike m n) (user : Identity) (announce : Bool) :
    Agree (m.forget user announce) (n.forget user announce) := by
  obtain ⟨r, hr, rfl⟩ := h
  unfold Member.forget
  dsimp only
  split
  · have hs : Alike { m with ranking := m.ranking.remove user.addr, host := none }
        { m with ranking := r.remove user.addr, host := none } := ⟨_, hr.remove _, rfl⟩
    exact hs.startElection.append rfl
  · exact ⟨⟨_, hr.remove _, rfl⟩, rfl⟩

/-- Forgetting somebody after the connection has been erased. -/
theorem Alike.forget_erase (h : Alike m n) (id : ConnectionId) (user : Identity) (announce : Bool) :
    Agree (Member.forget { m with peers := m.peers.erase id } user announce)
      (Member.forget { n with peers := n.peers.erase id } user announce) := by
  obtain ⟨r, hr, rfl⟩ := h
  have he : Alike { m with peers := m.peers.erase id } { m with peers := m.peers.erase id, ranking := r } := ⟨r, hr, rfl⟩
  exact he.forget user announce

theorem Alike.onVote (h : Alike m n) : Agree m.onVote n.onVote := by
  have hs := h.startElection
  obtain ⟨r, hr, he⟩ := hs.member
  unfold Member.onVote
  dsimp only
  rw [he]
  dsimp only
  split
  · exact ⟨⟨r, hr, rfl⟩, by rw [List.map_append, List.map_append, hs.effects]; rfl⟩
  · exact ⟨⟨r, hr, rfl⟩, hs.effects⟩

theorem Alike.onLeader (h : Alike m n) (id : ConnectionId) (sender : Endpoint) :
    Agree (m.onLeader id sender) (n.onLeader id sender) := by
  obtain ⟨r, hr, rfl⟩ := h
  have hf := hr.find? sender
  unfold Member.onLeader
  dsimp only
  cases m.peers.get? id with
  | some user => exact ⟨⟨r, hr, rfl⟩, rfl⟩
  | none =>
    cases hm : m.ranking.find? sender with
    | none =>
      rw [hm, Option.map_none, eq_comm, Option.map_eq_none_iff] at hf
      rw [hf]
      exact ⟨⟨r, hr, rfl⟩, rfl⟩
    | some u =>
      rw [hm, Option.map_some, eq_comm, Option.map_eq_some_iff] at hf
      obtain ⟨v, hv, ha⟩ := hf
      rw [hv]
      exact ⟨⟨r, hr, by simp [ha]⟩, by simp [Effect.nameless, Event.nameless, Identity.nameless, ha]⟩

theorem Alike.onDeadUser (h : Alike m n) (user : Identity) : Agree (m.onDeadUser user) (n.onDeadUser user) := by
  have herase := h.forget_erase
  have hforget := h.forget user false
  obtain ⟨r, hr, rfl⟩ := h
  unfold Member.onDeadUser
  dsimp only
  rw [← hr.contains]
  split
  · exact ⟨⟨r, hr, rfl⟩, rfl⟩
  · split
    · exact (herase _ _ false).cons _
    · split
      · exact hforget
      · exact ⟨⟨r, hr, rfl⟩, rfl⟩

theorem Alike.onBye (h : Alike m n) (id : ConnectionId) : Agree (m.onBye id) (n.onBye id) := by
  have herase := h.forget_erase id
  obtain ⟨r, hr, rfl⟩ := h
  unfold Member.onBye
  dsimp only
  split
  · exact (herase _ false).cons _
  · exact ⟨⟨r, hr, rfl⟩, rfl⟩

theorem Alike.onClosed (h : Alike m n) (id : ConnectionId) : Agree (m.onClosed id) (n.onClosed id) := by
  have herase := h.forget_erase id
  obtain ⟨r, hr, rfl⟩ := h
  unfold Member.onClosed
  dsimp only
  split
  · exact ⟨⟨r, hr, rfl⟩, rfl⟩
  · split
    · exact herase _ true
    · exact ⟨⟨r, hr, rfl⟩, rfl⟩

/-! ## Joining -/

theorem Alike.tryNextCandidate (h : Alike m n) : Agree m.tryNextCandidate n.tryNextCandidate := by
  obtain ⟨r, hr, rfl⟩ := h
  unfold Member.tryNextCandidate
  dsimp only
  split <;> exact ⟨⟨r, hr, rfl⟩, rfl⟩

theorem Alike.onRoomList (h : Alike m n) (entries : List Bytes) :
    Agree (m.onRoomList entries) (n.onRoomList entries) := by
  obtain ⟨r, hr, rfl⟩ := h
  unfold Member.onRoomList
  dsimp only
  split
  · exact ⟨⟨r, hr, rfl⟩, rfl⟩
  · exact Alike.tryNextCandidate ⟨r, hr, rfl⟩

/-- A host that admits somebody tells a ranking that is the same but for names. -/
theorem Alike.onHello (h : Alike m n) (id : ConnectionId) (user : Identity) :
    Agree (m.onHello id user) (n.onHello id user) := by
  obtain ⟨r, hr, rfl⟩ := h
  have hp := hr.push user
  unfold Member.onHello register
  dsimp only
  split
  · refine ⟨⟨_, hp, rfl⟩, ?_⟩
    simp only [List.map_append, List.map_cons, List.map_nil, Effect.nameless, Message.nameless,
      Identity.map_nameless hp.order]
  · exact ⟨⟨r, hr, rfl⟩, rfl⟩

theorem Alike.onConnected (h : Alike m n) (id : ConnectionId) (role : Role) :
    Agree (m.onConnected id role) (n.onConnected id role) := by
  obtain ⟨r, hr, rfl⟩ := h
  cases role with
  | discover => exact ⟨⟨r, hr, rfl⟩, rfl⟩
  | advertise =>
    unfold Member.onConnected
    dsimp only
    have ha : advert? { m with ranking := r } = m.advert? := rfl
    rw [ha]
    split <;> exact ⟨⟨r, hr, rfl⟩, rfl⟩
  | roomHost host => exact ⟨⟨_, hr.push host, rfl⟩, rfl⟩
  | member user => exact ⟨⟨_, hr.push user, rfl⟩, rfl⟩

theorem Alike.onConnectFailed (h : Alike m n) (role : Role) :
    Agree (m.onConnectFailed role) (n.onConnectFailed role) := by
  cases role with
  | roomHost host => exact h.tryNextCandidate
  | discover | advertise => exact ⟨h, rfl⟩
  | member user =>
    obtain ⟨r, hr, rfl⟩ := h
    exact ⟨⟨_, hr.remove _, rfl⟩, rfl⟩

/-! ## Messages -/

theorem Alike.act (h : Alike m n) (id : ConnectionId) (e : Envelope) : Agree (m.act id e) (n.act id e) := by
  obtain ⟨sender, message⟩ := e
  cases message with
  | hello user => exact h.onHello id user
  | deadUser user => exact h.onDeadUser user
  | bye => exact h.onBye id
  | leaderVote => exact h.onVote
  | leader => exact h.onLeader id sender
  | roomList entries =>
    have hl := h.onRoomList entries
    obtain ⟨r, hr, rfl⟩ := h
    unfold Member.act
    dsimp only
    split
    · exact hl
    · exact ⟨⟨r, hr, rfl⟩, rfl⟩
  | yourInfo user =>
    obtain ⟨r, hr, rfl⟩ := h
    unfold Member.act
    dsimp only
    split
    · exact ⟨⟨_, hr.setSelf user, rfl⟩, rfl⟩
    · exact ⟨⟨r, hr, rfl⟩, rfl⟩
  | userInfo user =>
    obtain ⟨r, hr, rfl⟩ := h
    unfold Member.act Member.onUserInfo
    dsimp only
    split <;> exact ⟨⟨r, hr, rfl⟩, rfl⟩
  | ack info =>
    obtain ⟨r, hr, rfl⟩ := h
    unfold Member.act Member.onAck
    dsimp only
    split <;> exact ⟨⟨r, hr, rfl⟩, rfl⟩
  | rankOrder users =>
    obtain ⟨r, hr, rfl⟩ := h
    exact ⟨⟨_, ⟨rfl, rfl⟩, rfl⟩, rfl⟩
  | chat | hostRoom | requestRoomList | process | queue | hostUpdated | sealed => exact ⟨h, rfl⟩

theorem Alike.onMessage (h : Alike m n) (id : ConnectionId) (e : Envelope) :
    Agree (m.onMessage id e) (n.onMessage id e) := by
  have ha := h.act id e
  obtain ⟨r, hr, rfl⟩ := h
  unfold Member.onMessage
  dsimp only
  split
  · unfold onChat
    dsimp only
    split <;> exact ⟨⟨r, hr, rfl⟩, rfl⟩
  · exact ha.cons _

/-! ## Inputs and runs -/

/-- What comes of an input is refused for the same reason, or is the same but for names. -/
theorem Alike.step (h : Alike m n) (i : Input) :
    (∃ f, m.step i = .error f ∧ n.step i = .error f) ∨
      ∃ x y, m.step i = .ok x ∧ n.step i = .ok y ∧ Agree x y := by
  cases i with
  | join k =>
    obtain ⟨r, hr, rfl⟩ := h
    rw [step_join, step_join]
    by_cases hin : m.inRoom = true
    · exact .inl ⟨_, if_pos hin, if_pos hin⟩
    · exact .inr ⟨_, _, if_neg hin, if_neg hin, ⟨r, hr, rfl⟩, rfl⟩
  | chat text =>
    obtain ⟨r, hr, rfl⟩ := h
    rw [step_chat_eq_ite, step_chat_eq_ite]
    by_cases hin : m.inRoom = true
    · exact .inr ⟨_, _, if_pos hin, if_pos hin, ⟨r, hr, rfl⟩, rfl⟩
    · exact .inl ⟨_, if_neg hin, if_neg hin⟩
  | abortJoin =>
    obtain ⟨r, hr, rfl⟩ := h
    exact .inr ⟨_, _, rfl, rfl, ⟨r, hr, rfl⟩, rfl⟩
  | leave =>
    obtain ⟨r, hr, rfl⟩ := h
    exact .inr ⟨_, _, rfl, rfl, ⟨_, hr.reset, rfl⟩, rfl⟩
  | poll =>
    obtain ⟨r, hr, rfl⟩ := h
    exact .inr ⟨_, _, rfl, rfl, ⟨r, hr, rfl⟩, rfl⟩
  | connected id role => exact .inr ⟨_, _, rfl, rfl, h.onConnected id role⟩
  | connectFailed role => exact .inr ⟨_, _, rfl, rfl, h.onConnectFailed role⟩
  | closed id => exact .inr ⟨_, _, rfl, rfl, h.onClosed id⟩
  | received id e => exact .inr ⟨_, _, rfl, rfl, h.onMessage id e⟩

/-- What can be observed of an input: what is to be done or why a command is refused, what can be seen of the member
afterwards, and which connections its messages reach. -/
structure Observation where
  outcome : Except Fault (List Effect)
  snapshot : Snapshot
  reach : Recipient → List ConnectionId

/-- An observation without the names in the effects. -/
def Observation.nameless (o : Observation) : Observation :=
  { o with outcome := o.outcome.map (List.map Effect.nameless) }

/-- What can be observed of one input. -/
def observe (m : Member) (i : Input) : Observation := ⟨(m.step i).map Prod.snd, (m.after i).snapshot, (m.after i).resolve⟩

/-- What can be observed of inputs, one after the other. -/
def watch (m : Member) : List Input → List Observation
  | [] => []
  | i :: is => m.observe i :: (m.after i).watch is

theorem Alike.snapshot (h : Alike m n) : m.snapshot = n.snapshot := by
  obtain ⟨r, hr, rfl⟩ := h
  exact congrArg (fun order => { m.snapshot with ranking := order }) hr.order

theorem Alike.resolve (h : Alike m n) : m.resolve = n.resolve := by
  obtain ⟨r, hr, rfl⟩ := h
  funext recipient
  cases recipient <;> rfl

theorem Alike.after (h : Alike m n) (i : Input) : Alike (m.after i) (n.after i) := by
  rcases h.step i with ⟨f, hm, hn⟩ | ⟨x, y, hm, hn, ha⟩
  · simpa [Member.after, hm, hn] using h
  · simpa [Member.after, hm, hn] using ha.member

theorem Alike.observe (h : Alike m n) (i : Input) : (m.observe i).nameless = (n.observe i).nameless := by
  have ho : ((m.step i).map Prod.snd).map (List.map Effect.nameless) =
      ((n.step i).map Prod.snd).map (List.map Effect.nameless) := by
    rcases h.step i with ⟨f, hm, hn⟩ | ⟨x, y, hm, hn, ha⟩
    · rw [hm, hn]
    · rw [hm, hn]
      exact congrArg Except.ok ha.effects
  simp only [Member.observe, Observation.nameless, ho, (h.after i).snapshot, (h.after i).resolve]

/-- Nothing tells alike members apart, whatever they are given. -/
theorem Alike.watch (h : Alike m n) (is : List Input) :
    (m.watch is).map Observation.nameless = (n.watch is).map Observation.nameless := by
  induction is generalizing m n with
  | nil => rfl
  | cons i is ih =>
    simp only [Member.watch, List.map_cons]
    rw [h.observe i, ih (h.after i)]

/-! ## Leaving -/

/-- A member that leaves is alike to one that was never in a room: its ranking lists itself alone, if perhaps by a name
that somebody else gave it. -/
theorem Tidy.alike_leave (t : m.Tidy) : Alike m.leave.1 (outside m.me m.directoryAddr) := by
  refine ⟨.alone m.me, ⟨?_, t.self⟩, rfl⟩
  exact t.proper.order_reset.trans (congrArg (fun a => [a]) t.self)

/-- **Leaving erases the room.** A member that leaves says goodbye on every connection of its table, in their order, closes
them in the same order, and then that to the directory. From then on it cannot be told apart from one that was never in a
room. -/
theorem leave_erases (h : m.Reachable) :
    (∀ is, (m.leave.1.watch is).map Observation.nameless =
        ((outside m.me m.directoryAddr).watch is).map Observation.nameless) ∧
      m.leave.2 = m.peers.ids.map (fun id => .send (.connection id) .bye) ++ m.peers.ids.map .disconnect ++
        m.directory.toList.map .disconnect ∧
      m.peers.ids.Pairwise (· < ·) ∧ ∀ id, id ∈ m.peers.ids ↔ (m.peers.get? id).isSome = true :=
  ⟨h.tidy.alike_leave.watch, rfl, h.tidy.sorted, m.peers.byConnection.mem_keys_iff⟩

/-- A member that the host knows by another name. It leaves with that name in its ranking, and yet cannot be told apart from
one that was never in a room. -/
theorem leave_erases_renamed :
    let ann : Identity := ⟨"ann", ⟨.loopback, 7001⟩⟩
    let bob : Identity := ⟨"bob", ⟨.loopback, 7002⟩⟩
    let cyd : Identity := ⟨"cyd", ⟨.loopback, 7003⟩⟩
    let joined := ((outside ann (.v4 ⟨.loopback, 7000⟩)).after (.join ⟨RoomKey.zeroBlock⟩)).after (.connected 9 .discover)
    let met := (joined.after (.connected 4 (.roomHost bob))).after (.connected 2 (.member cyd))
    let m := met.after (.received 4 ⟨bob.addr, .rankOrder [bob, ⟨"annie", ann.addr⟩, cyd]⟩)
    m.Reachable ∧ m.leave.1 ≠ outside m.me m.directoryAddr ∧
      m.leave.2 = [.send (.connection 2) .bye, .send (.connection 4) .bye, .disconnect 2, .disconnect 4, .disconnect 9] ∧
      ∀ is, (m.leave.1.watch is).map Observation.nameless =
        ((outside m.me m.directoryAddr).watch is).map Observation.nameless := by
  intro ann bob cyd joined met m
  have h : m.Reachable := .after (.after (.after (.after (.after (.outside ann _) _) _) _) _) _
  exact ⟨h, by decide, by decide, (leave_erases h).1⟩

end Member
end Parley

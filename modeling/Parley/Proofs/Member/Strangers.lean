import Parley.Proofs.Member.Hosting

/-!
# What only the directory can tell a member

A member comes to a room by what the directory says: who it is as seen from outside, and which rooms there are. From the list
of rooms it goes on to dial the host of one of them, or it hosts a room of its own. A message on any other connection leads it
nowhere (`Member.Steady`): the member stays who it is and where it is, with the same rooms left to be tried, and none of the
effects by which it comes to a room follows (`Effect.Settling`). What such a message can do is to make a member host, or no
host any more, and for either there is one kind of message (`Member.becomesHost_iff`, `Member.ceasesToHost_iff`). All this is
`Member.stranger_leads_nowhere`.

Such a message may make a member give the connection to the directory up, but gives it no other one. So whoever is a stranger
stays one, and any number of messages of strangers lead nowhere (`Member.steady_hear`).
-/

namespace Parley

/-- Effects by which a member comes to a room: it tells the directory of a room of its own, dials the host of another one, or
reports that it has got there. -/
def Effect.Settling : Effect → Prop
  | .send _ (.hostRoom _) | .connect _ (.roomHost _) | .notify (.directoryResult _) => True
  | _ => False

namespace Member

/-- Who and where a member is, and the rooms that are left to be tried. -/
structure Bearings where
  me : Identity
  key : Option RoomKey
  directoryAddr : SocketAddress
  candidates : List Identity

/-- Who and where a member is, and the rooms that are left to be tried. -/
def bearings (m : Member) : Bearings where
  me := m.me
  key := m.key
  directoryAddr := m.directoryAddr
  candidates := m.candidates

/-- A handler leads a member nowhere, and makes no connection the one to the directory. -/
structure Steady (m : Member) (x : Member × List Effect) : Prop where
  bearings : x.1.bearings = m.bearings
  directory : x.1.directory = m.directory ∨ x.1.directory = none
  unsettled : ∀ f ∈ x.2, ¬ f.Settling

variable {m : Member} {x : Member × List Effect} {id : ConnectionId} {e : Envelope}

/-- A member after messages on connections, one after the other, with all effects. -/
def hear (m : Member) : List (ConnectionId × Envelope) → Member × List Effect
  | [] => (m, [])
  | (id, e) :: heard =>
    let (m', effects) := m.onMessage id e
    let (m'', more) := m'.hear heard
    (m'', effects ++ more)

/-! ## Handlers -/

theorem steady_self (m : Member) : m.Steady (m, []) := ⟨rfl, .inl rfl, List.forall_mem_nil _⟩

theorem Steady.cons {f : Effect} (s : m.Steady x) (hf : ¬ f.Settling) : m.Steady (x.1, f :: x.2) :=
  ⟨s.bearings, s.directory, List.forall_mem_cons.2 ⟨hf, s.unsettled⟩⟩

theorem unsettled_disconnect (ids : List ConnectionId) : ∀ f ∈ ids.map Effect.disconnect, ¬ f.Settling := by
  intro f hf
  obtain ⟨id, -, rfl⟩ := List.mem_map.1 hf
  exact not_false

theorem steady_forget (m : Member) (t : PeerTable) (user : Identity) (announce : Bool) :
    m.Steady (forget { m with peers := t } user announce) := by
  refine ⟨?_, .inl ?_, fun f hf => ?_⟩
  · rw [forget_fst]
    split <;> rfl
  · rw [forget_fst]
    split <;> rfl
  · obtain rfl | rfl | ⟨id, rfl⟩ := eq_of_mem_forget hf <;> exact not_false

theorem steady_onHello (m : Member) (id : ConnectionId) (user : Identity) : m.Steady (m.onHello id user) := by
  have hjoined (b : Bool) : ∀ f ∈ (if b then [] else [Effect.notify (.peerJoined user)]), ¬ f.Settling := by
    cases b <;> simp [Effect.Settling]
  have hmet (ids : List ConnectionId) (b : Bool) :
      ∀ f ∈ ids.map Effect.disconnect ++ if b then [] else [.notify (.peerJoined user)], ¬ f.Settling :=
    List.forall_mem_append.2 ⟨unsettled_disconnect ids, hjoined b⟩
  unfold onHello register
  dsimp only
  split
  · refine ⟨rfl, .inl rfl, List.forall_mem_append.2 ⟨hmet _ _, ?_⟩⟩
    simp [Effect.Settling]
  · exact ⟨rfl, .inl rfl, hmet _ _⟩

theorem steady_onUserInfo (m : Member) (user : Identity) : m.Steady (m.onUserInfo user) := by
  unfold onUserInfo
  split
  · exact steady_self m
  · exact (steady_self m).cons not_false

theorem steady_onAck (m : Member) (info : String) : m.Steady (m.onAck info) := by
  unfold onAck
  dsimp only
  split <;> exact ⟨rfl, .inr rfl, unsettled_disconnect _⟩

theorem steady_onDeadUser (m : Member) (user : Identity) : m.Steady (m.onDeadUser user) := by
  unfold onDeadUser
  split
  · exact steady_self m
  · split
    · exact (steady_forget m _ _ false).cons not_false
    · split
      · exact steady_forget m m.peers user false
      · exact steady_self m

theorem steady_onBye (m : Member) (id : ConnectionId) : m.Steady (m.onBye id) := by
  unfold onBye
  split
  · exact (steady_forget m _ _ false).cons not_false
  · exact (steady_self m).cons not_false

/-- Who wins an election dials the directory at most, and not the host of a room. -/
theorem steady_onVote (m : Member) : m.Steady m.onVote := by
  refine ⟨?_, .inl ?_, fun f hf => ?_⟩
  · rw [onVote_fst]
    split <;> rfl
  · rw [onVote_fst]
    split <;> rfl
  · obtain ⟨id, rfl⟩ | rfl | rfl | rfl := eq_of_mem_onVote hf <;> exact not_false

theorem steady_onLeader (m : Member) (id : ConnectionId) (sender : Endpoint) : m.Steady (m.onLeader id sender) := by
  unfold onLeader
  dsimp only
  split
  · exact ⟨rfl, .inl rfl, by simp [Effect.Settling]⟩
  · exact ⟨rfl, .inl rfl, List.forall_mem_nil _⟩

theorem steady_onChat (m : Member) (sender : Option Identity) (timestamp : UInt64) (message : Message) :
    m.Steady (m.onChat sender timestamp message) := by
  unfold onChat
  split
  · exact ⟨rfl, .inl rfl, by simp [Effect.Settling]⟩
  · exact ⟨rfl, .inl rfl, List.forall_mem_nil _⟩

/-! ## Messages -/

theorem steady_act (hd : m.directory ≠ some id) (e : Envelope) : m.Steady (m.act id e) := by
  obtain ⟨sender, message⟩ := e
  cases message with
  | hello user => exact steady_onHello m id user
  | userInfo user => exact steady_onUserInfo m user
  | yourInfo user =>
    unfold act
    dsimp only
    rw [if_neg hd]
    exact steady_self m
  | roomList entries =>
    unfold act
    dsimp only
    rw [if_neg hd]
    exact steady_self m
  | ack info => exact steady_onAck m info
  | rankOrder users => exact ⟨rfl, .inl rfl, List.forall_mem_nil _⟩
  | deadUser user => exact steady_onDeadUser m user
  | bye => exact steady_onBye m id
  | leaderVote => exact steady_onVote m
  | leader => exact steady_onLeader m id sender
  | chat | hostRoom | requestRoomList | process | queue | hostUpdated | sealed => exact steady_self m

theorem steady_onMessage (hd : m.directory ≠ some id) (e : Envelope) : m.Steady (m.onMessage id e) := by
  unfold onMessage
  dsimp only
  split
  · exact steady_onChat ..
  · exact (steady_act hd e).cons not_false

/-- After a handler that leads nowhere, another one leads nowhere. -/
theorem Steady.trans {y : Member × List Effect} (s : m.Steady x) (s' : x.1.Steady y) : m.Steady (y.1, x.2 ++ y.2) where
  bearings := s'.bearings.trans s.bearings
  directory := by
    rcases s'.directory with hd | hd
    · rw [hd]
      exact s.directory
    · exact .inr hd
  unsettled := List.forall_mem_append.2 ⟨s.unsettled, s'.unsettled⟩

/-- However many messages strangers send, they lead a member nowhere. -/
theorem steady_hear {heard : List (ConnectionId × Envelope)} (h : ∀ p ∈ heard, m.directory ≠ some p.1) :
    m.Steady (m.hear heard) := by
  induction heard generalizing m with
  | nil => exact steady_self m
  | cons p heard ih =>
    obtain ⟨id, e⟩ := p
    obtain ⟨hd, hrest⟩ := List.forall_mem_cons.1 h
    have s : m.Steady (m.onMessage id e) := steady_onMessage hd e
    refine s.trans (ih fun q hq => ?_)
    rcases s.directory with hkept | hgone
    · rw [hkept]
      exact hrest q hq
    · rw [hgone]
      exact (Option.some_ne_none _).symm

/-- Such a message makes a member host if it is a vote, and no host if it says that somebody else has won. -/
theorem isHost_onMessage (hd : m.directory ≠ some id) (e : Envelope) :
    (m.onMessage id e).1.isHost = m.isHost ∨
      e.message = .leaderVote ∧ (m.onMessage id e).1.isHost = true ∨
      e.message = .leader ∧ (m.onMessage id e).1.isHost = false := by
  have t := turn_onMessage m id e
  show (m.onMessage id e).1.office.isHost = m.isHost ∨
    e.message = .leaderVote ∧ (m.onMessage id e).1.office.isHost = true ∨
    e.message = .leader ∧ (m.onMessage id e).1.office.isHost = false
  generalize (m.onMessage id e).1.office = o at t
  cases t with
  | stays | bereft | counts | moves => exact .inl rfl
  | wins => exact .inr (.inl ⟨rfl, rfl⟩)
  | yields => exact .inr (.inr ⟨rfl, rfl⟩)
  | founds hf =>
    -- only the list of rooms makes a member found one
    obtain ⟨sender, message⟩ := e
    cases message with
    | roomList entries => exact absurd hf.1 hd
    | _ => cases hf

theorem isHost_onMessage_vote (m : Member) (id : ConnectionId) (a : Endpoint) :
    (m.onMessage id ⟨a, .leaderVote⟩).1.isHost =
      (Election.isWon m.election.start.countVote.votes m.peers.size || m.isHost) := by
  show m.onVote.1.isHost = _
  rw [onVote_fst]
  split
  · rename_i hwon
    rw [hwon]
    rfl
  · rename_i hwon
    rw [Bool.eq_false_iff.2 hwon]
    rfl

/-- The last vote that is needed makes a member host. -/
theorem becomesHost_iff (hd : m.directory ≠ some id) (hbefore : m.isHost = false) (e : Envelope) :
    (m.onMessage id e).1.isHost = true ↔
      e.message = .leaderVote ∧ Election.isWon m.election.start.countVote.votes m.peers.size = true := by
  constructor
  · intro hafter
    have hvote : e.message = .leaderVote := by
      have h := isHost_onMessage hd e
      rw [hbefore, hafter] at h
      simpa using h
    obtain ⟨a, message⟩ := e
    cases hvote
    rw [isHost_onMessage_vote, hbefore, Bool.or_false] at hafter
    exact ⟨rfl, hafter⟩
  · rintro ⟨hvote, hwon⟩
    obtain ⟨a, message⟩ := e
    cases hvote
    rw [isHost_onMessage_vote, hwon]
    rfl

/-- The victory of somebody else makes a host cease to be host. -/
theorem ceasesToHost_iff (hd : m.directory ≠ some id) (hbefore : m.isHost = true) (e : Envelope) :
    (m.onMessage id e).1.isHost = false ↔ e.message = .leader := by
  constructor
  · intro hafter
    have h := isHost_onMessage hd e
    rw [hbefore, hafter] at h
    simpa using h
  · intro hleader
    obtain ⟨a, message⟩ := e
    cases hleader
    obtain ⟨b, hb⟩ := onLeader_fst m id a
    exact congrArg Member.isHost hb

/-- **A stranger leads a member nowhere.** Whatever a message on a connection other than the one to the directory says, the
member stays who it is, with the same room key, the same address of the directory and the same rooms left to be tried; it
does not report that the look-up is over, dials no host and tells of no new room. If it is not host, a vote makes it host that
is the last one needed, and nothing else does; if it is, somebody else's victory makes it cease to be, and nothing else
does. -/
theorem stranger_leads_nowhere (hd : m.directory ≠ some id) (e : Envelope) :
    let m' := (m.onMessage id e).1
    let effects := (m.onMessage id e).2
    (m'.me = m.me ∧ m'.key = m.key ∧ m'.directoryAddr = m.directoryAddr ∧ m'.candidates = m.candidates) ∧
      (∀ hosting, .notify (.directoryResult hosting) ∉ effects) ∧
      (∀ a u, .connect a (.roomHost u) ∉ effects) ∧
      (∀ recipient advert, .send recipient (.hostRoom advert) ∉ effects) ∧
      (m.isHost = false → (m'.isHost = true ↔
        e.message = .leaderVote ∧ Election.isWon m.election.start.countVote.votes m.peers.size = true)) ∧
      (m.isHost = true → (m'.isHost = false ↔ e.message = .leader)) := by
  intro m' effects
  have s : m.Steady (m', effects) := steady_onMessage hd e
  have hbearings : m'.me = m.me ∧ m'.key = m.key ∧ m'.directoryAddr = m.directoryAddr ∧ m'.candidates = m.candidates :=
    ⟨congrArg Bearings.me s.bearings, congrArg Bearings.key s.bearings, congrArg Bearings.directoryAddr s.bearings,
      congrArg Bearings.candidates s.bearings⟩
  exact ⟨hbearings, fun _ h => s.unsettled _ h trivial, fun _ _ h => s.unsettled _ h trivial,
    fun _ _ h => s.unsettled _ h trivial, fun hno => becomesHost_iff hd hno e, fun hhost => ceasesToHost_iff hd hhost e⟩

/-- A list of rooms without any makes a member host that hears it from the directory, and does nothing when it hears it from
ann. With a vote ann makes it host, and by winning herself she makes it cease to be. -/
theorem stranger_leads_nowhere_listing :
    let ann : Identity := ⟨"ann", ⟨.loopback, 7001⟩⟩
    let joined := ((outside ⟨"bob", ⟨.loopback, 7002⟩⟩ (.v4 ⟨.loopback, 7000⟩)).after (.join ⟨RoomKey.zeroBlock⟩)).after
      (.connected 1 .discover)
    let m := joined.after (.connected 2 (.member ann))
    let listing : Envelope := ⟨ann.addr, .roomList []⟩
    let voted := (m.onMessage 2 ⟨ann.addr, .leaderVote⟩).1
    m.directory ≠ some 2 ∧ .notify (.directoryResult true) ∈ (m.onMessage 1 listing).2 ∧
      .notify (.directoryResult true) ∉ (m.onMessage 2 listing).2 ∧ (m.onMessage 2 listing).1.isHost = false ∧
      voted.isHost = true ∧ (voted.onMessage 2 ⟨ann.addr, .leader⟩).1.isHost = false := by
  intro ann joined m listing voted
  have hd : m.directory ≠ some 2 := by decide
  obtain ⟨-, hreport, -, -, hhost, -⟩ := stranger_leads_nowhere hd listing
  refine ⟨hd, by decide, hreport true, ?_, by decide, by decide⟩
  by_contra h
  obtain ⟨hvote, -⟩ := (hhost (by decide)).1 (Bool.not_eq_false _ ▸ h)
  cases hvote

end Member
end Parley

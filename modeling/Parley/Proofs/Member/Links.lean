import Parley.Proofs.Member.Reachable

/-!
# What becomes of the connections of a member

What a member keeps of its connections is the one to the directory and the table of members (`Member.links`). An input is one
of seven things to them (`Member.errand`), and for each there are two equations (`Member.Rewires`): what it leaves of the
links, and which connections are over with it, because they were lost or because the member closes them.
-/

namespace Parley

/-- The connection that an effect closes. -/
def Effect.closed? : Effect → Option ConnectionId
  | .disconnect id => some id
  | .send _ _ | .connect _ _ | .notify _ => none

/-- The connections that effects close. -/
def Effect.closes (effects : List Effect) : List ConnectionId := effects.filterMap Effect.closed?

theorem Effect.closes_map_disconnect (ids : List ConnectionId) : closes (ids.map .disconnect) = ids := by
  unfold closes
  rw [List.filterMap_map]
  exact List.filterMap_some

theorem Effect.closes_append (es fs : List Effect) : closes (es ++ fs) = closes es ++ closes fs := List.filterMap_append

/-! ## The table -/

namespace PeerTable

variable {t : PeerTable} {id j : ConnectionId} {u : Identity}

/-- Nobody's own connection is displaced. -/
theorem displaced?_ne (h : t.displaced? id u = some j) : j ≠ id := by
  obtain ⟨e, he, rfl⟩ := Option.map_eq_some_iff.1 h
  have hp := List.find?_some he
  simp only [Bool.and_eq_true, decide_eq_true_eq] at hp
  exact hp.1

theorem mem_ids_erase : j ∈ (t.erase id).ids ↔ j ≠ id ∧ j ∈ t.ids := t.byConnection.mem_keys_erase id j

/-- A connection that leads to an endpoint leads to somebody. -/
theorem isSome_get?_of_find? {a : Endpoint} (h : t.find? a = some id) : (t.get? id).isSome = true := by
  obtain ⟨e, he, rfl⟩ := Option.map_eq_some_iff.1 h
  exact (SortedMap.mem_keys_iff _ _).1 (List.mem_map_of_mem (List.mem_of_find?_eq_some he))

theorem erase_of_notMem (h : id ∉ t.ids) : t.erase id = t := congrArg mk (SortedMap.erase_of_notMem h)

theorem mem_ids_insert : j ∈ (t.insert id u).ids ↔ j = id ∨ j ∈ t.ids ∧ t.displaced? id u ≠ some j := by
  unfold insert ids
  cases hold : t.displaced? id u with
  | none => simp [SortedMap.mem_keys_insert]
  | some old => simp [SortedMap.mem_keys_insert, SortedMap.mem_keys_erase, and_comm, eq_comm]

end PeerTable

namespace Member

/-! ## What an input is to the connections -/

/-- What a member keeps of its connections. -/
structure Links where
  directory : Option ConnectionId
  peers : PeerTable

/-- What a member keeps of its connections. -/
def links (m : Member) : Links where
  directory := m.directory
  peers := m.peers

/-- A connection is kept, as the one to the directory or in the table. -/
def Links.Holds (l : Links) (id : ConnectionId) : Prop := l.directory = some id ∨ id ∈ l.peers.ids

/-- The connection that is opened. -/
def Input.opened? : Input → Option ConnectionId
  | .connected id _ => some id
  | .join _ | .abortJoin | .chat _ | .leave | .poll | .connectFailed _ | .closed _ | .received _ _ => none

/-- The connection that is lost. -/
def Input.lost? : Input → Option ConnectionId
  | .closed id => some id
  | .join _ | .abortJoin | .chat _ | .leave | .poll | .connected _ _ | .connectFailed _ | .received _ _ => none

/-- Who is at the other end of a connection, as an input tells. -/
def Input.met? : Input → Option (ConnectionId × Identity)
  | .connected id (.roomHost u) | .connected id (.member u) | .received id ⟨_, .hello u⟩ => some (id, u)
  | _ => none

/-- The connection to the directory is lost, or is not needed any more. -/
def Abandons (m : Member) : Input → Prop
  | .closed id => m.directory = some id
  | .received _ ⟨_, .ack _⟩ => True
  | _ => False

/-- The connection that has to go from the table: it is lost, somebody says goodbye on it, or whoever it leads to is said to
be gone. -/
def dropped? (m : Member) : Input → Option ConnectionId
  | .closed id => if m.directory = some id then none else some id
  | .received _ ⟨_, .deadUser u⟩ => if u.same m.me then none else m.peers.find? u.addr
  | .received id ⟨_, .bye⟩ => some id
  | _ => none

/-- The connections that are over with an input: the one that is lost, and those that the member closes. -/
def ended (m : Member) (i : Input) : List ConnectionId := i.lost?.toList ++ Effect.closes (m.effectsOf i)

/-- What an input leaves of the links, and which connections are over with it. -/
structure Rewires (m : Member) (i : Input) (l : Links) (ended : List ConnectionId) : Prop where
  links : (m.after i).links = l
  ended : m.ended i = ended

/-- What an input is to the connections of a member. -/
inductive Errand (m : Member) : Input → Prop
  | idle {i : Input} (ho : i.opened? = none) (h : m.Rewires i m.links []) : Errand m i
  | leaves : Errand m .leave
  /-- A connection to the directory is open. -/
  | consults {id : ConnectionId} {role : Role} (h : role = .discover ∨ role = .advertise ∧ m.inRoom = true) :
    Errand m (.connected id role)
  /-- So it is, but there is no room to advertise. -/
  | declines {id : ConnectionId} (h : m.inRoom = false) : Errand m (.connected id .advertise)
  /-- Somebody is met. -/
  | meets {i : Input} {id : ConnectionId} {u : Identity} (h : i.met? = some (id, u)) : Errand m i
  | abandons {i : Input} (h : m.Abandons i) : Errand m i
  | drops {i : Input} {id : ConnectionId} (h : m.dropped? i = some id) : Errand m i

variable {m : Member} {i : Input} {id : ConnectionId} {u : Identity} {role : Role}

theorem opened?_of_abandons (h : m.Abandons i) : i.opened? = none := by
  cases i with
  | connected id role => cases h
  | _ => rfl

theorem opened?_of_dropped? (h : m.dropped? i = some id) : i.opened? = none := by
  cases i with
  | connected id role => cases h
  | _ => rfl

/-- Somebody is met on a connection that was just opened, or says hello. -/
theorem opened?_of_met? (h : i.met? = some (id, u)) :
    i.opened? = some id ∨ ∃ sender, i = .received id ⟨sender, .hello u⟩ := by
  cases i with
  | connected id' role =>
    cases role with
    | roomHost v | member v =>
      cases h
      exact .inl rfl
    | discover | advertise => cases h
  | received id' e =>
    obtain ⟨sender, message⟩ := e
    cases message with
    | hello v =>
      cases h
      exact .inr ⟨sender, rfl⟩
    | _ => cases h
  | _ => cases h

/-! ## What leaves the connections alone -/

/-- A handler changes no link and closes nothing. -/
structure Quiet (m : Member) (x : Member × List Effect) : Prop where
  links : x.1.links = m.links
  closes : Effect.closes x.2 = []

variable {x : Member × List Effect}

/-- Neither does it if it reports something first. -/
theorem Quiet.report (q : m.Quiet x) (event : Event) : m.Quiet (x.1, .notify event :: x.2) := ⟨q.links, q.closes⟩

theorem Quiet.errand (q : m.Quiet x) (ho : i.opened? = none) (hl : i.lost? = none) (h : m.step i = .ok x) :
    Errand m i := by
  refine .idle ho ⟨?_, ?_⟩
  · rw [after, h]
    exact q.links
  · rw [Member.ended, effectsOf, h, hl]
    exact q.closes

theorem errand_of_refused {f : Fault} (ho : i.opened? = none) (hl : i.lost? = none) (h : m.step i = .error f) :
    Errand m i := by
  refine .idle ho ⟨?_, ?_⟩
  · rw [after, h]
  · rw [Member.ended, effectsOf, h, hl]
    rfl

theorem quiet_self (m : Member) : m.Quiet (m, []) := ⟨rfl, rfl⟩

theorem quiet_forget (m : Member) (user : Identity) (announce : Bool) : m.Quiet (m.forget user announce) := by
  constructor
  · rw [forget_fst]
    split <;> rfl
  · refine List.filterMap_eq_nil_iff.2 fun x hx => ?_
    obtain rfl | rfl | ⟨id, rfl⟩ := eq_of_mem_forget hx <;> rfl

theorem quiet_onVote (m : Member) : m.Quiet m.onVote := by
  constructor
  · rw [onVote_fst]
    split <;> rfl
  · refine List.filterMap_eq_nil_iff.2 fun x hx => ?_
    obtain ⟨id, rfl⟩ | rfl | rfl | rfl := eq_of_mem_onVote hx <;> rfl

theorem quiet_onLeader (m : Member) (id : ConnectionId) (sender : Endpoint) : m.Quiet (m.onLeader id sender) := by
  unfold onLeader
  dsimp only
  split <;> exact ⟨rfl, rfl⟩

theorem quiet_tryNextCandidate (m : Member) : m.Quiet m.tryNextCandidate := by
  unfold tryNextCandidate
  split
  · exact ⟨rfl, rfl⟩
  · unfold becomeHost
    dsimp only
    split <;> exact ⟨rfl, rfl⟩

theorem quiet_onRoomList (m : Member) (entries : List Bytes) : m.Quiet (m.onRoomList entries) := by
  unfold onRoomList
  split
  · exact quiet_self m
  · exact ⟨(quiet_tryNextCandidate _).links, (quiet_tryNextCandidate _).closes⟩

theorem quiet_onUserInfo (m : Member) (user : Identity) : m.Quiet (m.onUserInfo user) := by
  unfold onUserInfo
  split <;> exact ⟨rfl, rfl⟩

theorem quiet_onChat (m : Member) (sender : Option Identity) (timestamp : UInt64) (message : Message) :
    m.Quiet (m.onChat sender timestamp message) := by
  unfold onChat
  split <;> exact ⟨rfl, rfl⟩

theorem quiet_poll (m : Member) : m.Quiet m.poll := by
  refine ⟨rfl, List.filterMap_eq_nil_iff.2 fun x hx => ?_⟩
  obtain ⟨e, -, rfl⟩ := List.mem_map.1 hx
  rfl

/-! ## What each errand does -/

theorem rewires_leave (m : Member) : m.Rewires .leave ⟨none, .empty⟩ (m.peers.ids ++ m.directory.toList) := by
  refine ⟨rfl, ?_⟩
  have hbye : Effect.closes (m.peers.ids.map fun id => .send (.connection id) .bye) = [] :=
    List.filterMap_eq_nil_iff.2 fun x hx => by
      obtain ⟨id, -, rfl⟩ := List.mem_map.1 hx
      rfl
  show Effect.closes m.leave.2 = _
  unfold leave
  dsimp only
  rw [Effect.closes_append, Effect.closes_append, hbye, Effect.closes_map_disconnect, Effect.closes_map_disconnect]
  rfl

/-- There is something to advertise exactly in a room. -/
theorem isSome_advert? (m : Member) : m.advert?.isSome = m.inRoom := Option.isSome_map

theorem rewires_consults (h : role = .discover ∨ role = .advertise ∧ m.inRoom = true) :
    m.Rewires (.connected id role) ⟨some id, m.peers⟩ [] := by
  rcases h with rfl | ⟨rfl, hroom⟩
  · exact ⟨rfl, rfl⟩
  · rw [← isSome_advert?, Option.isSome_iff_exists] at hroom
    obtain ⟨advert, ha⟩ := hroom
    have hstep : m.step (.connected id .advertise) = .ok ({ m with directory := some id }, [.send .directory advert]) := by
      unfold step onConnected
      dsimp only
      rw [ha]
    constructor
    · rw [after, hstep]
      rfl
    · rw [Member.ended, effectsOf, hstep]
      rfl

theorem rewires_declines (h : m.inRoom = false) : m.Rewires (.connected id .advertise) ⟨none, m.peers⟩ [id] := by
  rw [← isSome_advert?, Option.isSome_eq_false_iff, Option.isNone_iff_eq_none] at h
  have hstep : m.step (.connected id .advertise) = .ok ({ m with directory := none }, [.disconnect id]) := by
    unfold step onConnected
    dsimp only
    rw [h]
  constructor
  · rw [after, hstep]
    rfl
  · rw [Member.ended, effectsOf, hstep]
    rfl

theorem rewires_meets (h : i.met? = some (id, u)) :
    m.Rewires i ⟨m.directory, m.peers.insert id u⟩ (m.peers.displaced? id u).toList := by
  have hclosed (es : List Effect) (hes : Effect.closes es = []) :
      Effect.closes ((m.peers.displaced? id u).toList.map .disconnect ++ es) = (m.peers.displaced? id u).toList := by
    rw [Effect.closes_append, Effect.closes_map_disconnect, hes, List.append_nil]
  cases i with
  | connected id' role =>
    cases role with
    | roomHost v | member v =>
      cases h
      exact ⟨rfl, hclosed _ rfl⟩
    | discover | advertise => cases h
  | received id' e =>
    obtain ⟨sender, message⟩ := e
    cases message with
    | hello v =>
      cases h
      constructor
      · show (m.onHello id u).1.links = _
        unfold onHello
        dsimp only
        split <;> rfl
      · show Effect.closes (m.onHello id u).2 = _
        unfold onHello register
        dsimp only
        split
        · rw [List.append_assoc]
          exact hclosed _ (by split <;> rfl)
        · exact hclosed _ (by split <;> rfl)
    | _ => cases h
  | _ => cases h

theorem rewires_abandons (h : m.Abandons i) : m.Rewires i ⟨none, m.peers⟩ m.directory.toList := by
  cases i with
  | closed id =>
    have hd : m.directory = some id := h
    have hstep : m.onClosed id = ({ m with directory := none }, []) := if_pos hd
    constructor
    · show (m.onClosed id).1.links = _
      rw [hstep]
      rfl
    · show [id] ++ Effect.closes (m.onClosed id).2 = _
      rw [hstep, hd]
      rfl
  | received id e =>
    obtain ⟨sender, message⟩ := e
    cases message with
    | ack info =>
      constructor
      · show (m.onAck info).1.links = _
        unfold onAck
        dsimp only
        split <;> rfl
      · show Effect.closes (m.onAck info).2 = _
        unfold onAck
        dsimp only
        split <;> exact Effect.closes_map_disconnect _
    | _ => cases h
  | _ => cases h

/-- A connection at whose other end nobody is known is not in the table. -/
theorem erase_of_get?_eq_none (h : m.peers.get? id = none) : m.peers.erase id = m.peers :=
  PeerTable.erase_of_notMem ((SortedMap.notMem_keys_iff _ id).2 h)

/-- A member that drops a connection forgets whomever it leads to. -/
theorem step_dropped (h : m.dropped? i = some id) :
    ∃ before, i.lost?.toList ++ Effect.closes before = [id] ∧
      match m.peers.get? id with
      | some u => ∃ announce,
        m.step i = .ok ((forget { m with peers := m.peers.erase id } u announce).1,
          before ++ (forget { m with peers := m.peers.erase id } u announce).2)
      | none => m.step i = .ok (m, before) := by
  cases i with
  | closed id' =>
    unfold dropped? at h
    dsimp only at h
    split at h
    · cases h
    · rename_i hd
      cases h
      refine ⟨[], rfl, ?_⟩
      split
      · rename_i hu
        exact ⟨true, by simp only [step, onClosed, if_neg hd, hu, List.nil_append]⟩
      · rename_i hu
        simp only [step, onClosed, if_neg hd, hu]
  | received id' e =>
    obtain ⟨sender, message⟩ := e
    cases message with
    | deadUser user =>
      unfold dropped? at h
      dsimp only at h
      split at h
      · cases h
      · rename_i hme
        refine ⟨[.notify (.messageReceived (m.peers.get? id') (.deadUser user)), .disconnect id], rfl, ?_⟩
        split
        · rename_i hu
          refine ⟨false, ?_⟩
          simp only [step, onMessage, act, onDeadUser, if_neg hme, h, hu, Option.getD_some]
          rfl
        · rename_i hu
          have hsome := PeerTable.isSome_get?_of_find? h
          rw [hu] at hsome
          cases hsome
    | bye =>
      cases h
      refine ⟨[.notify (.messageReceived (m.peers.get? id) .bye), .disconnect id], rfl, ?_⟩
      split
      · rename_i hu
        refine ⟨false, ?_⟩
        simp only [step, onMessage, act, onBye, hu]
        rfl
      · rename_i hu
        simp only [step, onMessage, act, onBye, hu]
    | _ => cases h
  | _ => cases h

theorem rewires_drops (h : m.dropped? i = some id) : m.Rewires i ⟨m.directory, m.peers.erase id⟩ [id] := by
  obtain ⟨before, hclosed, hstep⟩ := step_dropped h
  split at hstep
  · rename_i u _
    obtain ⟨announce, hstep⟩ := hstep
    have q := quiet_forget { m with peers := m.peers.erase id } u announce
    constructor
    · rw [after, hstep]
      exact q.links
    · rw [Member.ended, effectsOf, hstep]
      dsimp only
      rw [Effect.closes_append, q.closes, List.append_nil, hclosed]
  · rename_i hnone
    constructor
    · rw [after, hstep, erase_of_get?_eq_none hnone]
      rfl
    · rw [Member.ended, effectsOf, hstep]
      exact hclosed

/-- Nobody goes from the table who is not in it. -/
theorem quiet_onDeadUser {sender : Endpoint} {user : Identity}
    (h : m.dropped? (.received id ⟨sender, .deadUser user⟩) = none) : m.Quiet (m.onDeadUser user) := by
  unfold dropped? at h
  dsimp only at h
  unfold onDeadUser
  split
  · exact quiet_self m
  · rename_i hme
    rw [if_neg hme] at h
    rw [h]
    dsimp only
    split
    · exact quiet_forget m user false
    · exact quiet_self m

theorem errand_received (m : Member) (id : ConnectionId) (e : Envelope) : Errand m (.received id e) := by
  obtain ⟨sender, message⟩ := e
  cases message with
  | hello user => exact .meets rfl
  | ack info => exact .abandons trivial
  | bye => exact .drops rfl
  | deadUser user =>
    cases hd : m.dropped? (.received id ⟨sender, .deadUser user⟩) with
    | some dead => exact .drops hd
    | none => exact ((quiet_onDeadUser hd).report _).errand rfl rfl rfl
  | userInfo user => exact ((quiet_onUserInfo m user).report _).errand rfl rfl rfl
  | yourInfo user =>
    have hquiet : m.Quiet (m.act id ⟨sender, .yourInfo user⟩) := by
      unfold act
      dsimp only
      split <;> exact ⟨rfl, rfl⟩
    exact (hquiet.report _).errand rfl rfl rfl
  | roomList entries =>
    have hquiet : m.Quiet (m.act id ⟨sender, .roomList entries⟩) := by
      unfold act
      dsimp only
      split
      · exact quiet_onRoomList m entries
      · exact quiet_self m
    exact (hquiet.report _).errand rfl rfl rfl
  | leaderVote => exact ((quiet_onVote m).report _).errand rfl rfl rfl
  | leader => exact ((quiet_onLeader m id sender).report _).errand rfl rfl rfl
  | chat timestamp text => exact (quiet_onChat m _ timestamp _).errand rfl rfl rfl
  | rankOrder | hostRoom | requestRoomList | process | queue | hostUpdated | sealed => exact .idle rfl ⟨rfl, rfl⟩

theorem errand (m : Member) (i : Input) : Errand m i := by
  cases i with
  | leave => exact .leaves
  | abortJoin => exact .idle rfl ⟨rfl, rfl⟩
  | poll => exact (quiet_poll m).errand rfl rfl rfl
  | join k =>
    cases hroom : m.inRoom with
    | true => exact errand_of_refused rfl rfl (by rw [step_join, if_pos hroom])
    | false =>
      have hquiet : m.Quiet ({ m with key := some k, clock := .start }, []) := ⟨rfl, rfl⟩
      exact hquiet.errand rfl rfl (by rw [step_join, hroom]; rfl)
  | chat text =>
    cases hroom : m.inRoom with
    | true =>
      have hquiet : m.Quiet ({ m with clock := m.clock.stamp.2 }, [.send .allPeers (.chat m.clock.stamp.1 text)]) :=
        ⟨rfl, rfl⟩
      exact hquiet.errand rfl rfl (by rw [step_chat_eq_ite, if_pos hroom])
    | false => exact errand_of_refused rfl rfl (by rw [step_chat_eq_ite, hroom]; rfl)
  | connected id role =>
    cases role with
    | roomHost user | member user => exact .meets rfl
    | discover => exact .consults (.inl rfl)
    | advertise =>
      cases hroom : m.inRoom with
      | true => exact .consults (.inr ⟨rfl, hroom⟩)
      | false => exact .declines hroom
  | connectFailed role =>
    cases role with
    | discover | advertise | member user => exact .idle rfl ⟨rfl, rfl⟩
    | roomHost user => exact (quiet_tryNextCandidate m).errand rfl rfl rfl
  | closed id =>
    by_cases hd : m.directory = some id
    · exact .abandons hd
    · exact .drops (if_neg hd)
  | received id e => exact errand_received m id e

end Member
end Parley

import Mathlib.Tactic.Common
import Parley.Member.Step

/-!
# What elections make of a member

What a member becomes when it loses a connection, or hears of a departure, a vote or a victory. Nothing of this changes who
it is (`SameSeat`). News of a departure leaves it what it is, but for its host and one connection (`step_closed`,
`step_deadUser`); so does a vote, or the member takes over and says so to everybody (`step_vote`); and at a word of victory
it follows the winner (`step_leader`).
-/

namespace Parley

/-- An effect that claims no victory: if it sends anything, this is a vote or news of a departure. -/
def Effect.Modest : Effect → Prop
  | .send _ message => message = .leaderVote ∨ ∃ u, message = .deadUser u
  | .connect _ _ | .disconnect _ | .notify _ => True

namespace Member

/-- What elections do not change. -/
structure SameSeat (m m' : Member) : Prop where
  me : m'.me = m.me
  key : m'.key = m.key
  directory : m'.directory = m.directory

/-- The member is host if it was, and follows whom it followed or nobody. -/
structure Keeps (m m' : Member) (es : List Effect) : Prop where
  seat : SameSeat m m'
  isHost : m'.isHost = m.isHost
  host : m'.host = m.host ∨ m'.host = none
  peers : m'.peers = m.peers ∨ ∃ id, m'.peers = m.peers.erase id
  modest : ∀ e ∈ es, e.Modest

/-- The member takes over, and says so to everybody. -/
structure Wins (m m' : Member) (es : List Effect) : Prop where
  seat : SameSeat m m'
  isHost : m'.isHost = true
  host : m'.host = some m.me.addr
  peers : m'.peers = m.peers
  effects : ∃ before after, es = before ++ .send .allPeers .leader :: after ∧ ∀ e ∈ before ++ after, e.Modest

/-- The member follows the one at `a`. -/
structure Yields (m m' : Member) (es : List Effect) (a : Endpoint) : Prop where
  seat : SameSeat m m'
  isHost : m'.isHost = false
  host : m'.host = some a
  peers : m'.peers = m.peers
  modest : ∀ e ∈ es, e.Modest

variable {m : Member}

/-- A message other than chat is reported and acted on. -/
theorem step_message {id : ConnectionId} {e : Envelope} {m' : Member} {es : List Effect}
    (hc : ∀ stamp text, e.message ≠ .chat stamp text) (h : m.act id e = (m', es)) :
    m.step (.received id e) = .ok (m', .notify (.messageReceived (m.peers.get? id) e.message) :: es) := by
  rw [step, onMessage]
  split
  · rename_i stamp text he
    exact absurd he (hc stamp text)
  · rw [h]

/-! ## Starting an election -/

theorem startElection_eq (m : Member) :
    ∃ e es, m.startElection = ({ m with election := e }, es) ∧ ∀ x ∈ es, Effect.Modest x := by
  unfold startElection
  dsimp only
  split
  · exact ⟨m.election, [], rfl, by simp⟩
  · split
    · exact ⟨m.election.start, [], rfl, by simp⟩
    · split
      · exact ⟨m.election.start, _, rfl, by simp [Effect.Modest]⟩
      · exact ⟨m.election.start, [], rfl, by simp⟩

/-! ## Departures -/

theorem keeps_self (m : Member) : Keeps m m [] := ⟨⟨rfl, rfl, rfl⟩, rfl, .inl rfl, .inl rfl, by simp⟩

/-- An effect in front that claims no victory either. -/
theorem Keeps.cons {m' : Member} {es : List Effect} (k : Keeps m m' es) (x : Effect) (hx : x.Modest) :
    Keeps m m' (x :: es) :=
  ⟨k.seat, k.isHost, k.host, k.peers, List.forall_mem_cons.2 ⟨hx, k.modest⟩⟩

/-- Forgetting somebody does not touch the connections. -/
theorem forget_keeps (m : Member) (user : Identity) (announce : Bool) :
    ∃ m' es, m.forget user announce = (m', es) ∧ Keeps m m' es ∧ m'.peers = m.peers := by
  have hnews : ∀ x ∈ Effect.notify (.peerLeft user) ::
      (if announce && m.isHost then [.send .allPeers (.deadUser user)] else []), x.Modest := by
    intro x hx
    rcases List.mem_cons.1 hx with rfl | hx
    · trivial
    · split at hx
      · rw [List.mem_singleton.1 hx]
        exact .inr ⟨user, rfl⟩
      · simp at hx
  unfold forget
  dsimp only
  split
  · obtain ⟨e, es, he, hes⟩ := startElection_eq { m with ranking := m.ranking.remove user.addr, host := none }
    rw [he]
    refine ⟨_, _, rfl, ⟨⟨rfl, rfl, rfl⟩, rfl, .inr rfl, .inl rfl, fun x hx => ?_⟩, rfl⟩
    rcases List.mem_append.1 hx with hx | hx
    · exact hnews x hx
    · exact hes x hx
  · exact ⟨_, _, rfl, ⟨⟨rfl, rfl, rfl⟩, rfl, .inl rfl, .inl rfl, hnews⟩, rfl⟩

/-- Forgetting somebody after the connection has been erased. -/
theorem forget_erase_keeps (m : Member) (id : ConnectionId) (user : Identity) (announce : Bool) :
    ∃ m' es, forget { m with peers := m.peers.erase id } user announce = (m', es) ∧ Keeps m m' es := by
  obtain ⟨m', es, he, k, hp⟩ := forget_keeps { m with peers := m.peers.erase id } user announce
  exact ⟨m', es, he, ⟨k.seat.me, k.seat.key, k.seat.directory⟩, k.isHost, k.host, .inr ⟨id, hp⟩, k.modest⟩

/-- A lost connection. -/
theorem step_closed {id : ConnectionId} (hd : m.directory ≠ some id) :
    ∃ m' es, m.step (.closed id) = .ok (m', es) ∧ Keeps m m' es := by
  cases hu : m.peers.get? id with
  | none => exact ⟨m, [], by simp [step, onClosed, hd, hu], keeps_self m⟩
  | some user =>
    obtain ⟨m', es, he, k⟩ := forget_erase_keeps m id user true
    exact ⟨m', es, by simp [step, onClosed, hd, hu, he], k⟩

theorem onDeadUser_keeps (m : Member) (user : Identity) :
    ∃ m' es, m.onDeadUser user = (m', es) ∧ Keeps m m' es := by
  unfold onDeadUser
  split
  · exact ⟨m, [], rfl, keeps_self m⟩
  · split
    · rename_i dead _
      obtain ⟨m', es, he, k⟩ := forget_erase_keeps m dead ((m.peers.get? dead).getD user) false
      exact ⟨m', .disconnect dead :: es, by simp only [he], k.cons (.disconnect dead) trivial⟩
    · split
      · obtain ⟨m', es, he, k, -⟩ := forget_keeps m user false
        exact ⟨m', es, he, k⟩
      · exact ⟨m, [], rfl, keeps_self m⟩

/-- News of a departure. -/
theorem step_deadUser (m : Member) (id : ConnectionId) (a : Endpoint) (user : Identity) :
    ∃ m' es, m.step (.received id ⟨a, .deadUser user⟩) = .ok (m', es) ∧ Keeps m m' es := by
  obtain ⟨m', es, he, k⟩ := onDeadUser_keeps m user
  exact ⟨m', _, step_message (by simp) he, k.cons _ trivial⟩

/-! ## Votes and victories -/

theorem becomeLeader_wins (m : Member) : Wins m m.becomeLeader.1 m.becomeLeader.2 := by
  refine ⟨⟨rfl, rfl, rfl⟩, rfl, rfl, rfl, [], _, rfl, ?_⟩
  intro x hx
  rcases List.mem_cons.1 hx with rfl | hx
  · trivial
  · split at hx
    · rw [List.mem_singleton.1 hx]
      trivial
    · simp at hx

/-- Modest effects in front of a victory. -/
theorem Wins.append {m' : Member} {es : List Effect} (w : Wins m m' es) {fs : List Effect}
    (hf : ∀ x ∈ fs, Effect.Modest x) : Wins m m' (fs ++ es) := by
  obtain ⟨before, after, rfl, h⟩ := w.effects
  refine ⟨w.seat, w.isHost, w.host, w.peers, fs ++ before, after, by simp, ?_⟩
  rw [List.append_assoc]
  exact List.forall_mem_append.2 ⟨hf, h⟩

theorem Wins.cons {m' : Member} {es : List Effect} (w : Wins m m' es) (x : Effect) (hx : x.Modest) :
    Wins m m' (x :: es) := by
  rw [← List.singleton_append]
  exact w.append (List.forall_mem_singleton.2 hx)

theorem onVote_cases (m : Member) : ∃ m' es, m.onVote = (m', es) ∧ (Keeps m m' es ∨ Wins m m' es) := by
  obtain ⟨e, es, he, hes⟩ := startElection_eq m
  unfold onVote
  rw [he]
  dsimp only
  split
  · have w := becomeLeader_wins { m with election := e.countVote }
    have w' : Wins m _ _ := ⟨⟨w.seat.me, w.seat.key, w.seat.directory⟩, w.isHost, w.host, w.peers, w.effects⟩
    exact ⟨_, _, rfl, .inr (w'.append hes)⟩
  · exact ⟨_, _, rfl, .inl ⟨⟨rfl, rfl, rfl⟩, rfl, .inl rfl, .inl rfl, hes⟩⟩

/-- A vote. -/
theorem step_vote (m : Member) (id : ConnectionId) (a : Endpoint) :
    ∃ m' es, m.step (.received id ⟨a, .leaderVote⟩) = .ok (m', es) ∧ (Keeps m m' es ∨ Wins m m' es) := by
  obtain ⟨m', es, he, h⟩ := onVote_cases m
  refine ⟨m', _, step_message (by simp) he, ?_⟩
  rcases h with k | w
  · exact .inl (k.cons _ trivial)
  · exact .inr (w.cons _ trivial)

theorem onLeader_yields (m : Member) (id : ConnectionId) (a : Endpoint) :
    ∃ m' es, m.onLeader id a = (m', es) ∧ Yields m m' es (((m.peers.get? id).map Identity.addr).getD a) := by
  have hnews (user : Identity) : ∀ x ∈ [Effect.notify (.leaderElected user)], x.Modest := by simp [Effect.Modest]
  unfold onLeader
  dsimp only
  cases hu : m.peers.get? id with
  | some user => exact ⟨_, _, rfl, ⟨rfl, rfl, rfl⟩, rfl, rfl, rfl, hnews user⟩
  | none =>
    cases hr : m.ranking.find? a with
    | some user =>
      have ha : user.addr = a := by simpa using List.find?_some hr
      exact ⟨_, _, rfl, ⟨rfl, rfl, rfl⟩, rfl, congrArg some ha, rfl, hnews user⟩
    | none => exact ⟨_, _, rfl, ⟨rfl, rfl, rfl⟩, rfl, rfl, rfl, by simp⟩

/-- A word of victory: of the member at the other end of the connection, or else of its sender. -/
theorem step_leader (m : Member) (id : ConnectionId) (a : Endpoint) :
    ∃ m' es, m.step (.received id ⟨a, .leader⟩) = .ok (m', es) ∧
      Yields m m' es (((m.peers.get? id).map Identity.addr).getD a) := by
  obtain ⟨m', es, he, y⟩ := onLeader_yields m id a
  refine ⟨m', _, step_message (by simp) he, y.seat, y.isHost, y.host, y.peers, ?_⟩
  exact List.forall_mem_cons.2 ⟨trivial, y.modest⟩

end Member
end Parley

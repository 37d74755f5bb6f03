import Parley.Proofs.Room.Succession

/-!
# What survivors do

Every input to a survivor of a dead host, and what comes of it. A survivor that hears the news (`News`) removes the host,
and votes for the heir if it has no other host yet (`follower_hears`); the news of the heir's victory makes it follow the
heir (`follower_follows`). The heir counts votes (`step_vote`): the last one that it lacks makes it host, and it tells
everybody.
-/

namespace Parley

variable {n : Nat}

namespace Succession

variable {S : Succession n}

/-! ## Noticing -/

section Survivor

variable {i : Fin n} {b : Bool} {m : Member}

/-- A survivor as it is once it has noticed. -/
def bereaved (S : Succession n) (i : Fin n) (m : Member) : Member :=
  { m with peers := m.peers.erase (S.mesh.line i S.host), ranking := ⟨S.roll true, (S.mesh.user i).addr⟩ }

theorem addr_ne_host (hi : i ≠ S.host) : (S.mesh.user i).addr ≠ S.hostAddr :=
  fun h => hi (S.mesh.addr_injective h)

theorem not_same_host (st : S.Stands i b m) (hi : i ≠ S.host) : (S.mesh.user S.host).same m.me = false := by
  simpa [Identity.same, st.seated.me] using Ne.symm (addr_ne_host hi)

theorem stands_bereaved (st : S.Stands i false m) : S.Stands i true (S.bereaved i m) :=
  ⟨⟨st.seated.me, st.seated.key, st.seated.peers.erase S.host⟩, rfl, st.directory⟩

/-- What is known of the room does not depend on hosts and elections. -/
theorem Stands.set (st : S.Stands i b m) (e : Election) (isHost : Bool) (host : Option Endpoint) :
    S.Stands i b { m with election := e, isHost, host } :=
  ⟨⟨st.seated.me, st.seated.key, st.seated.peers⟩, st.ranking, st.directory⟩

/-- A survivor that is not host forgets the host: if it still took it for the host, it starts an election. -/
theorem forget_host (st : S.Stands i false m) (hi : i ≠ S.host) (hf : m.isHost = false) (announce : Bool) :
    Member.forget { m with peers := m.peers.erase (S.mesh.line i S.host) } (S.mesh.user S.host) announce =
      if m.host = some S.hostAddr then
        (({ S.bereaved i m with host := none } : Member).startElection.1,
          .notify (.peerLeft (S.mesh.user S.host)) :: ({ S.bereaved i m with host := none } : Member).startElection.2)
      else (S.bereaved i m, [.notify (.peerLeft (S.mesh.user S.host))]) := by
  have hr : m.ranking.remove S.hostAddr = ⟨S.roll true, (S.mesh.user i).addr⟩ := by
    rw [st.ranking, remove_host (addr_ne_host hi)]
  simp only [Member.forget, hr, hf, bereaved]
  split <;> simp_all

/-- A host forgets the one before it, and tells everybody. -/
theorem forget_predecessor (st : S.Stands i false m) (hi : i ≠ S.host) (hf : m.isHost = true) :
    Member.forget { m with peers := m.peers.erase (S.mesh.line i S.host) } (S.mesh.user S.host) true =
      (S.bereaved i m,
        [.notify (.peerLeft (S.mesh.user S.host)), .send .allPeers (.deadUser (S.mesh.user S.host))]) := by
  have hr : m.ranking.remove S.hostAddr = ⟨S.roll true, (S.mesh.user i).addr⟩ := by
    rw [st.ranking, remove_host (addr_ne_host hi)]
  simp [Member.forget, hr, hf, bereaved]

/-- Losing the connection to the host. -/
theorem onClosed_host (st : S.Stands i false m) (hi : i ≠ S.host) :
    m.onClosed (S.mesh.line i S.host) =
      Member.forget { m with peers := m.peers.erase (S.mesh.line i S.host) } (S.mesh.user S.host) true := by
  have hget := st.seated.peers.get?_line (host_mem_company hi)
  simp [Member.onClosed, st.directory S.host, hget]

/-- Losing it after having noticed changes nothing. -/
theorem onClosed_host_again (st : S.Stands i true m) : m.onClosed (S.mesh.line i S.host) = (m, []) := by
  have hget := st.seated.peers.get?_eq_none (host_not_mem_company i)
  simp [Member.onClosed, st.directory S.host, hget]

/-- Being told of the death of the host. -/
theorem onDeadUser_host (st : S.Stands i false m) (hi : i ≠ S.host) :
    m.onDeadUser (S.mesh.user S.host) =
      ((Member.forget { m with peers := m.peers.erase (S.mesh.line i S.host) } (S.mesh.user S.host) false).1,
        .disconnect (S.mesh.line i S.host) ::
          (Member.forget { m with peers := m.peers.erase (S.mesh.line i S.host) } (S.mesh.user S.host) false).2) := by
  have hmem := host_mem_company hi
  simp [Member.onDeadUser, not_same_host st hi, st.seated.peers.find?_addr hmem, st.seated.peers.get?_line hmem]

/-- Being told of it after having noticed changes nothing. -/
theorem onDeadUser_host_again (st : S.Stands i true m) (hi : i ≠ S.host) :
    m.onDeadUser (S.mesh.user S.host) = (m, []) := by
  have hfind := st.seated.peers.find?_eq_none (host_not_mem_company i)
  simp [Member.onDeadUser, not_same_host st hi, hfind, st.ranking, not_contains_host]

/-- The news that the host is dead: a lost connection, or a message. -/
inductive News (S : Succession n) (i : Fin n) : Member.Input → Prop
  | closed : News S i (.closed (S.mesh.line i S.host))
  | told (id : ConnectionId) (a : Endpoint) : News S i (.received id ⟨a, .deadUser (S.mesh.user S.host)⟩)

/-- A survivor that is not host and hears the news holds an election if it still took the dead host for the host. -/
def mourn (S : Succession n) (i : Fin n) (m : Member) : Member × List Effect :=
  if m.host = some S.hostAddr then ({ S.bereaved i m with host := none } : Member).startElection
  else (S.bereaved i m, [])

theorem step_news (st : S.Stands i false m) (hi : i ≠ S.host) (hf : m.isHost = false) {x : Member.Input}
    (hx : S.News i x) :
    ∃ es, m.step x = .ok ((S.mourn i m).1, es) ∧
      ∀ m', S.mesh.post i m' es = S.mesh.post i m' (S.mourn i m).2 := by
  cases hx with
  | closed =>
    simp only [Member.step, onClosed_host st hi, forget_host st hi hf, mourn]
    split <;> exact ⟨_, rfl, fun _ => by simp⟩
  | told id a =>
    simp only [Member.step, Member.onMessage, Member.act, onDeadUser_host st hi, forget_host st hi hf, mourn]
    split <;> exact ⟨_, rfl, fun _ => by simp⟩

/-- Old news. -/
theorem step_news_again (st : S.Stands i true m) (hi : i ≠ S.host) {x : Member.Input} (hx : S.News i x) :
    ∃ es, m.step x = .ok (m, es) ∧ ∀ m', S.mesh.post i m' es = [] := by
  cases hx with
  | closed => exact ⟨[], by rw [Member.step, onClosed_host_again st], fun _ => rfl⟩
  | told id a =>
    simp only [Member.step, Member.onMessage, Member.act, onDeadUser_host_again st hi]
    exact ⟨_, rfl, fun _ => rfl⟩

end Survivor

/-! ## Voting -/

/-- The votes that a member has counted in the election that is running. -/
def tally (m : Member) : Nat := if m.election.active then m.election.votes else 0

section Voting

variable {i : Fin n} {b : Bool} {m : Member}

/-- Starting an election that is running changes nothing. -/
theorem election_of_active (h : m.election.active = true) : (⟨true, tally m⟩ : Election) = m.election := by
  rw [tally, if_pos h, ← h]

/-- A survivor that has noticed votes for the heir, unless an election is running. -/
theorem startElection_follower (st : S.Stands i true m) (hh : i ≠ S.heir) :
    m.startElection = ({ m with election := ⟨true, tally m⟩ },
      if m.election.active then [] else [.send (.connection (S.mesh.line i S.heir)) .leaderVote]) := by
  have hhead : m.ranking.head.addr = S.heirAddr := by rw [st.ranking, head_roll]
  have hme : m.ranking.head.same m.me = false := by
    simpa [Identity.same, hhead, st.seated.me] using fun h => hh (S.mesh.addr_injective h).symm
  have hfind := st.seated.peers.find?_addr (mem_company (Ne.symm hh) heir_ne)
  by_cases ha : m.election.active = true
  · simp [Member.startElection, ha, election_of_active ha]
  · simp only [Bool.not_eq_true] at ha
    simp [Member.startElection, Election.start, tally, ha, hhead, hme, hfind]

/-- The heir votes for nobody, or for the dead host if it has not noticed. -/
theorem startElection_heir (st : S.Stands S.heir b m) :
    ∃ es, m.startElection = ({ m with election := ⟨true, tally m⟩ }, es) ∧
      ∀ m', ∀ p ∈ S.mesh.post S.heir m' es, p.target = S.host := by
  by_cases ha : m.election.active = true
  · exact ⟨[], by simp [Member.startElection, ha, election_of_active ha], by simp⟩
  · simp only [Bool.not_eq_true] at ha
    by_cases hme : m.ranking.head.same m.me = true
    · exact ⟨[], by simp [Member.startElection, Election.start, tally, ha, hme], by simp⟩
    · have hne : m.ranking.head.addr ≠ S.heirAddr := by simpa [Identity.same, st.seated.me] using hme
      rw [st.ranking] at hne
      obtain rfl : b = false := by
        rcases b with _ | _
        · rfl
        · exact absurd (head_roll _) hne
      have hhead : m.ranking.head.addr = S.hostAddr := by
        rw [st.ranking]
        exact (head_ranks _).resolve_left hne
      have hfind := st.seated.peers.find?_addr (host_mem_company heir_ne)
      refine ⟨[.send (.connection (S.mesh.line S.heir S.host)) .leaderVote], ?_, ?_⟩
      · simp [Member.startElection, Election.start, tally, ha, hme, hhead, hfind]
      · intro m' p hp
        rw [Mesh.post_line (Ne.symm heir_ne), List.mem_singleton] at hp
        rw [hp]

/-- A packet that tells of the heir's victory. -/
def Acclaims (S : Succession n) (p : Packet n) : Prop :=
  p.source = S.heir ∧ p.target ≠ S.heir ∧ p.envelope.message = .leader

/-- A vote for the heir is counted, and makes it host if it was the last one that it lacked. -/
theorem onVote_heir (st : S.Stands S.heir b m) :
    ∃ es, (∀ m', ∀ p ∈ S.mesh.post S.heir m' es, p.target = S.host) ∧
      m.onVote =
        if Election.isWon (tally m + 1) (S.company S.heir b).length then
          (({ m with election := ⟨true, tally m + 1⟩ } : Member).becomeLeader.1,
            es ++ ({ m with election := ⟨true, tally m + 1⟩ } : Member).becomeLeader.2)
        else ({ m with election := ⟨true, tally m + 1⟩ }, es) := by
  obtain ⟨es, hs, hes⟩ := startElection_heir st
  refine ⟨es, hes, ?_⟩
  simp only [Member.onVote, hs, Election.countVote, st.seated.peers.size]

/-- All that a new host sends to members is one word to everybody. -/
theorem post_becomeLeader (m' : Member) :
    S.mesh.post i m' m.becomeLeader.2 = S.mesh.post i m' [.send .allPeers .leader] := by
  have he : ∃ rest, m.becomeLeader.2 = [.send .allPeers .leader] ++ (.notify (.leaderElected m.me) :: rest) ∧
      S.mesh.post i m' rest = [] := by
    refine ⟨_, rfl, ?_⟩
    split <;> rfl
  obtain ⟨rest, he, hr⟩ := he
  rw [he, Mesh.post_append, Mesh.post_notify, hr, List.append_nil]

theorem step_leaderVote {id : ConnectionId} {a : Endpoint} {m' : Member} {es : List Effect} (h : m.onVote = (m', es)) :
    m.step (.received id ⟨a, .leaderVote⟩) =
      .ok (m', .notify (.messageReceived (m.peers.get? id) .leaderVote) :: es) := by
  rw [Member.step, Member.onMessage, Member.act, h]

/-- What a vote makes of the heir: it becomes host and tells everybody, or it lacks a vote still. -/
theorem step_vote (st : S.Stands S.heir b m) (id : ConnectionId) (a : Endpoint) :
    ∃ m' es, m.step (.received id ⟨a, .leaderVote⟩) = .ok (m', es) ∧ S.Stands S.heir b m' ∧
      ((m'.isHost = true ∧ m'.host = some S.heirAddr ∧
          (∀ p ∈ S.mesh.post S.heir m' es, p.target = S.host ∨ S.Acclaims p) ∧
          ∀ j, j ≠ S.host → j ≠ S.heir → ∃ p ∈ S.mesh.post S.heir m' es, p.target = j ∧ S.Acclaims p) ∨
        (m'.isHost = m.isHost ∧ m'.host = m.host ∧ tally m' = tally m + 1 ∧
          2 * tally m' < (S.company S.heir b).length ∧ ∀ p ∈ S.mesh.post S.heir m' es, p.target = S.host)) := by
  obtain ⟨es, hes, hv⟩ := onVote_heir st
  by_cases hw : Election.isWon (tally m + 1) (S.company S.heir b).length = true
  · rw [if_pos hw] at hv
    have st' : S.Stands S.heir b ({ m with election := ⟨true, tally m + 1⟩ } : Member).becomeLeader.1 :=
      st.set .idle true (some m.me.addr)
    have hpost := Mesh.perm_post_allPeers st'.seated.peers (not_mem_company _ _) .leader
    refine ⟨_, _, step_leaderVote hv, st', .inl ⟨rfl, ?_, ?_, ?_⟩⟩
    · exact congrArg (fun u => some u.addr) st.seated.me
    · intro p hp
      rw [Mesh.post_notify, Mesh.post_append, post_becomeLeader, List.mem_append] at hp
      rcases hp with hp | hp
      · exact .inl (hes _ p hp)
      · obtain ⟨j, hj, rfl⟩ := List.mem_map.1 (hpost.mem_iff.1 hp)
        exact .inr ⟨rfl, ne_of_mem_company hj, rfl⟩
    · intro j hj hh
      have hmem := hpost.mem_iff.2 (List.mem_map_of_mem (mem_company hh hj))
      rw [Mesh.post_notify, Mesh.post_append, post_becomeLeader]
      exact ⟨_, List.mem_append_right _ hmem, rfl, rfl, hh, rfl⟩
  · rw [if_neg hw] at hv
    have hlt : 2 * (tally m + 1) < (S.company S.heir b).length := by
      simp only [Election.isWon, Bool.and_eq_true, decide_eq_true_eq, not_and] at hw
      have := hw (Nat.succ_pos _)
      omega
    exact ⟨_, _, step_leaderVote hv, st.set ⟨true, tally m + 1⟩ m.isHost m.host, .inr ⟨rfl, rfl, rfl, hlt, hes _⟩⟩

end Voting

/-! ## Followers

The survivors other than the heir. -/

section Follower

variable {i : Fin n} {b : Bool} {m : Member}

/-- A packet with a vote for the heir. -/
def Votes (S : Succession n) (p : Packet n) : Prop := p.target = S.heir ∧ p.envelope.message = .leaderVote

/-- A follower that hears the news for the first time votes, unless it has another host or an election is running. -/
theorem mourn_follower (st : S.Stands i false m) (hh : i ≠ S.heir) :
    ∃ m' es, S.mourn i m = (m', es) ∧ S.Stands i true m' ∧ m'.isHost = m.isHost ∧
      (m.host ≠ some S.hostAddr → m'.host = m.host) ∧
      es = if m.host = some S.hostAddr ∧ m.election.active = false then
        [.send (.connection (S.mesh.line i S.heir)) .leaderVote] else [] := by
  have st' : S.Stands i true { S.bereaved i m with host := none } :=
    (stands_bereaved st).set m.election m.isHost none
  by_cases hm : m.host = some S.hostAddr
  · refine ⟨_, _, (if_pos hm).trans (startElection_follower st' hh), st'.set _ m.isHost none, rfl,
      fun h => absurd hm h, ?_⟩
    by_cases ha : m.election.active = true
    · simp [bereaved, ha]
    · simp [bereaved, ha, hm]
  · exact ⟨_, _, if_neg hm, stands_bereaved st, rfl, fun _ => rfl, by simp [hm]⟩

/-- What the news makes of a follower. -/
theorem follower_hears (st : S.Stands i b m) (hi : i ≠ S.host) (hh : i ≠ S.heir) (hf : m.isHost = false)
    {x : Member.Input} (hx : S.News i x) :
    ∃ m' es, m.step x = .ok (m', es) ∧ S.Stands i true m' ∧ m'.isHost = false ∧
      (m.host ≠ some S.hostAddr → m'.host = m.host) ∧
      S.mesh.post i m' es = if b = false ∧ m.host = some S.hostAddr ∧ m.election.active = false then
        [⟨i, S.heir, ⟨m'.me.addr, .leaderVote⟩⟩] else [] := by
  cases b with
  | false =>
    obtain ⟨m', es, hm, st', hf', hhost, rfl⟩ := mourn_follower st hh
    obtain ⟨es', hs, hp⟩ := step_news st hi hf hx
    rw [hm] at hs hp
    refine ⟨m', es', hs, st', hf' ▸ hf, hhost, ?_⟩
    rw [hp]
    split <;> simp_all [Mesh.post_line (Ne.symm hh)]
  | true =>
    obtain ⟨es, hs, hp⟩ := step_news_again st hi hx
    exact ⟨m, es, hs, st, hf, fun _ => rfl, by simp [hp]⟩

/-- A follower that follows the heir goes on following it. -/
theorem follows_of_hears {m' : Member} (h : m.host ≠ some S.hostAddr → m'.host = m.host)
    (hm : m.host = some S.heirAddr) : m'.host = some S.heirAddr := by
  refine (h fun hd => ?_).trans hm
  exact heirAddr_ne (Option.some.inj (hm.symm.trans hd))

/-- The victory of the heir settles it. -/
theorem follower_follows (st : S.Stands i b m) (hh : i ≠ S.heir) (a : Endpoint) :
    ∃ m' es, m.step (.received (S.mesh.line i S.heir) ⟨a, .leader⟩) = .ok (m', es) ∧ S.Stands i b m' ∧
      m'.isHost = false ∧ m'.host = some S.heirAddr ∧ S.mesh.post i m' es = [] := by
  have hget := st.seated.peers.get?_line (mem_company (Ne.symm hh) heir_ne)
  have hl : m.onLeader (S.mesh.line i S.heir) a =
      ({ m with election := .idle, isHost := false, host := some S.heirAddr },
        [.notify (.leaderElected (S.mesh.user S.heir))]) := by
    simp [Member.onLeader, hget]
  exact ⟨_, _, by rw [Member.step, Member.onMessage, Member.act, hl], st.set .idle false (some S.heirAddr), rfl, rfl,
    rfl⟩

end Follower

/-! ## The heir -/

section Heir

variable {b : Bool} {m : Member}

/-- The news counts no vote. -/
theorem heir_hears (st : S.Stands S.heir b m) (hf : m.isHost = false) {x : Member.Input} (hx : S.News S.heir x) :
    ∃ m' es, m.step x = .ok (m', es) ∧ S.Stands S.heir true m' ∧ m'.isHost = false ∧ tally m' = tally m ∧
      ∀ p ∈ S.mesh.post S.heir m' es, p.target = S.host := by
  cases b with
  | false =>
    obtain ⟨es, hs, hp⟩ := step_news st heir_ne hf hx
    by_cases hm : m.host = some S.hostAddr
    · have st' : S.Stands S.heir true { S.bereaved S.heir m with host := none } :=
        (stands_bereaved st).set m.election m.isHost none
      obtain ⟨fs, he, hes⟩ := startElection_heir st'
      rw [mourn, if_pos hm, he] at hs hp
      refine ⟨_, es, hs, st'.set _ m.isHost none, hf, rfl, ?_⟩
      rw [hp]
      exact hes _
    · rw [mourn, if_neg hm] at hs hp
      exact ⟨_, es, hs, stands_bereaved st, hf, rfl, by simp [hp]⟩
  | true =>
    obtain ⟨es, hs, hp⟩ := step_news_again st heir_ne hx
    exact ⟨m, es, hs, st, hf, rfl, by simp [hp]⟩

/-- A packet in which the heir tells that the host is dead. -/
def Announces (S : Succession n) (p : Packet n) : Prop :=
  p.source = S.heir ∧ p.target ≠ S.heir ∧ p.envelope.message = .deadUser (S.mesh.user S.host)

/-- An heir that is host already announces the death. -/
theorem heir_announces (st : S.Stands S.heir b m) (hf : m.isHost = true) :
    ∃ m' es, m.step (.closed (S.mesh.line S.heir S.host)) = .ok (m', es) ∧ S.Stands S.heir true m' ∧
      m'.isHost = true ∧ m'.host = m.host ∧ ∀ p ∈ S.mesh.post S.heir m' es, S.Announces p := by
  cases b with
  | false =>
    have st' := stands_bereaved st
    refine ⟨_, _, by rw [Member.step, onClosed_host st heir_ne, forget_predecessor st heir_ne hf], st', hf, rfl, ?_⟩
    intro p hp
    rw [Mesh.post_notify, (Mesh.perm_post_allPeers st'.seated.peers (not_mem_company _ _) _).mem_iff,
      List.mem_map] at hp
    obtain ⟨j, hj, rfl⟩ := hp
    exact ⟨rfl, ne_of_mem_company hj, rfl⟩
  | true => exact ⟨m, [], by rw [Member.step, onClosed_host_again st], st, hf, rfl, by simp⟩

end Heir

end Succession
end Parley

import Mathlib.Data.Finset.Card
import Parley.Proofs.Member.Hosting
import Parley.Proofs.Member.Links

/-!
# The votes that a member counts

A member counts the votes that come in while an election is on, and wins once it has counted half as many as it has
connections. Two things are expected of this: that the votes are those of half of the members that it knows, and that it
does not wait any longer once it has them. Neither is so in every run.

Votes are counted and voters are not. Beside the member a `Poll` keeps on which connections the votes came; there are always
as many as the member has counted (`Poll.Counted`). A vote that comes twice on one connection, or on one that is not in the
table, makes the member host without a quorum (`Poll.repeated_vote_elects`). How far votes and voters are apart is the number
of votes that are spoilt, and it decides whether a victory rests on a quorum (`Poll.quorum_iff_unspoilt`).

The votes are held against the table when one comes in, and not when the table shrinks. So a departure may leave the member
with the votes that it needs and the election on (`Member.departure_strands`). Nothing else does
(`Member.undecided_throughout_iff`).
-/

namespace Parley

/-- An election is won by the votes of half of the members, and at least one. -/
theorem Election.isWon_iff {votes peers : Nat} : isWon votes peers = true ↔ 0 < votes ∧ peers ≤ 2 * votes := by
  simp [isWon, Nat.mul_comm]

theorem Election.active_start (e : Election) : e.start.active = true := by
  unfold start
  split
  · assumption
  · rfl

/-! ## The size of a table -/

namespace PeerTable

variable {t : PeerTable} {id old : ConnectionId} {u : Identity}

theorem mem_ids_of_displaced? (h : t.displaced? id u = some old) : old ∈ t.ids := by
  obtain ⟨e, he, rfl⟩ := Option.map_eq_some_iff.1 h
  exact List.mem_map_of_mem (List.mem_of_find?_eq_some he)

theorem size_eq_card (h : t.byConnection.Sorted) : t.size = t.ids.toFinset.card := by
  have hnodup : t.ids.Nodup := h.imp Nat.ne_of_lt
  rw [List.toFinset_card_of_nodup hnodup]
  exact (List.length_map _).symm

theorem size_erase (h : t.byConnection.Sorted) (hid : id ∈ t.ids) : (t.erase id).size + 1 = t.size := by
  have hids : (t.erase id).ids.toFinset = t.ids.toFinset.erase id := by
    ext j
    simp [mem_ids_erase]
  rw [size_eq_card h, size_eq_card (t := t.erase id) (h.erase id), hids]
  exact Finset.card_erase_add_one (List.mem_toFinset.2 hid)

/-- A connection in the table that turns out to lead where another one leads takes the place of both. -/
theorem size_insert_of_displaced (h : t.byConnection.Sorted) (hid : id ∈ t.ids) (hold : t.displaced? id u = some old) :
    (t.insert id u).size + 1 = t.size := by
  have hne := displaced?_ne hold
  have hids : (t.insert id u).ids.toFinset = t.ids.toFinset.erase old := by
    ext j
    simp only [List.mem_toFinset, Finset.mem_erase, mem_ids_insert, hold]
    grind
  rw [size_eq_card h, size_eq_card (t := t.insert id u) ((Change.insert id u).sorted h), hids]
  exact Finset.card_erase_add_one (List.mem_toFinset.2 (mem_ids_of_displaced? hold))

/-- Otherwise a table does not shrink. -/
theorem size_le_size_insert (h : t.byConnection.Sorted) (hid : id ∈ t.ids → t.displaced? id u = none) :
    t.size ≤ (t.insert id u).size := by
  rw [size_eq_card h, size_eq_card (t := t.insert id u) ((Change.insert id u).sorted h)]
  cases hold : t.displaced? id u with
  | none =>
    refine Finset.card_le_card fun j hj => ?_
    simp only [List.mem_toFinset, mem_ids_insert, hold] at hj ⊢
    exact .inr ⟨hj, nofun⟩
  | some old =>
    have hnew : id ∉ t.ids := by
      intro hmem
      rw [hid hmem] at hold
      cases hold
    have hids : (t.insert id u).ids.toFinset = (t.ids.toFinset.erase old).cons id (by simp [hnew]) := by
      ext j
      simp only [List.mem_toFinset, Finset.mem_cons, Finset.mem_erase, mem_ids_insert, hold]
      grind
    rw [hids, Finset.card_cons, Finset.card_erase_add_one (List.mem_toFinset.2 (mem_ids_of_displaced? hold))]

end PeerTable

namespace Member

variable {m : Member} {i : Input} {id : ConnectionId}

/-! ## What an input makes of an election -/

/-- The connection that a vote comes in on. -/
def Input.voter? : Input → Option ConnectionId
  | .received id ⟨_, .leaderVote⟩ => some id
  | _ => none

theorem exists_of_voter? (h : i.voter? = some id) : ∃ a, i = .received id ⟨a, .leaderVote⟩ := by
  cases i with
  | received id' e =>
    obtain ⟨a, message⟩ := e
    cases message with
    | leaderVote =>
      cases h
      exact ⟨a, rfl⟩
    | _ => cases h
  | _ => cases h

/-- Where no vote comes in, an election goes on, begins or is over. -/
theorem election_after (h : i.voter? = none) :
    (m.after i).election = m.election ∨ (m.after i).election = m.election.start ∨ (m.after i).election = .idle := by
  have t := turn_after m i
  show (m.after i).office.election = _ ∨ (m.after i).office.election = _ ∨ (m.after i).office.election = _
  generalize (m.after i).office = o at t
  cases t with
  | stays | founds | follows | moves => exact .inl rfl
  | bereft => exact .inr (.inl rfl)
  | counts | wins => cases h
  | yields | leaves => exact .inr (.inr rfl)

/-- A vote is counted, and suffices or does not. -/
theorem election_after_vote (m : Member) (id : ConnectionId) (a : Endpoint) :
    (m.after (.received id ⟨a, .leaderVote⟩)).election =
      if Election.isWon m.election.start.countVote.votes m.peers.size then .idle else m.election.start.countVote := by
  show m.onVote.1.election = _
  rw [onVote_fst]
  split <;> rfl

theorem peers_after_vote (m : Member) (id : ConnectionId) (a : Endpoint) :
    (m.after (.received id ⟨a, .leaderVote⟩)).peers = m.peers := congrArg Links.peers (quiet_onVote m).links

/-- A vote makes the member host, or makes it say once more that it has won. -/
def Elects (m : Member) (i : Input) : Prop :=
  i.voter?.isSome = true ∧ (m.isHost = false ∧ (m.after i).isHost = true ∨ m.Acclaims i)

/-- It does so exactly if it suffices. -/
theorem elects_vote_iff (m : Member) (id : ConnectionId) (a : Endpoint) :
    m.Elects (.received id ⟨a, .leaderVote⟩) ↔
      Election.isWon m.election.start.countVote.votes m.peers.size = true := by
  have heffects : m.effectsOf (.received id ⟨a, .leaderVote⟩) =
      .notify (.messageReceived (m.peers.get? id) .leaderVote) :: m.onVote.2 := rfl
  have hvote : Effect.send .allPeers .leader ∉ m.startElection.2 := by
    intro h
    obtain ⟨id, he⟩ := eq_vote_of_mem_startElection h
    cases he
  have hhost : (m.after (.received id ⟨a, .leaderVote⟩)).isHost = m.onVote.1.isHost := rfl
  rw [Elects, Acclaims, heffects, hhost, onVote_fst, onVote_snd]
  cases Election.isWon m.election.start.countVote.votes m.peers.size with
  | true => simp [Input.voter?]
  | false => simp [Input.voter?, hvote]

/-! ## Votes and voters -/

/-- A member, with the connections on which votes have come in since its election began, one for each vote. -/
structure Poll where
  member : Member
  voters : List ConnectionId

namespace Poll

variable {p : Poll}

/-- A member outside any room has no election. -/
def start (me : Identity) (directoryAddr : SocketAddress) : Poll := ⟨outside me directoryAddr, []⟩

/-- The votes that have come in, with the one that is just coming. -/
def cast (p : Poll) (i : Input) : List ConnectionId := p.voters ++ i.voter?.toList

/-- The poll after an input. Once the election is over nothing is kept of it. -/
def after (p : Poll) (i : Input) : Poll where
  member := p.member.after i
  voters := if (p.member.after i).election.active then p.cast i else []

/-- The connections in the table on which votes have come in. -/
def backers (p : Poll) (i : Input) : Finset ConnectionId :=
  (p.cast i).toFinset.filter (· ∈ (p.member.after i).peers.ids)

/-- Votes have come in on some connection in the table, and on at least half of them. -/
def Quorum (p : Poll) (i : Input) : Prop :=
  (p.backers i).Nonempty ∧ (p.member.after i).peers.size ≤ 2 * (p.backers i).card

/-- How many votes are spoilt: they came on a connection that is not in the table, or that votes again. -/
def spoilt (table : List ConnectionId) : List ConnectionId → Nat
  | [] => 0
  | v :: vs => if v ∈ table ∧ v ∉ vs then spoilt table vs else spoilt table vs + 1

/-- The votes are those of different voters and those that are spoilt. -/
theorem card_add_spoilt (table votes : List ConnectionId) :
    (votes.toFinset.filter (· ∈ table)).card + spoilt table votes = votes.length := by
  induction votes with
  | nil => rfl
  | cons v vs ih =>
    rw [List.toFinset_cons, Finset.filter_insert, spoilt, List.length_cons, ← ih]
    by_cases ht : v ∈ table
    · by_cases hv : v ∈ vs
      · have hmem : v ∈ vs.toFinset.filter (· ∈ table) := by simp [ht, hv]
        rw [if_pos ht, if_neg (by simp [hv]), Finset.insert_eq_of_mem hmem]
        omega
      · have hnew : v ∉ vs.toFinset.filter (· ∈ table) := by simp [hv]
        rw [if_pos ht, if_pos ⟨ht, hv⟩, Finset.card_insert_of_notMem hnew]
        omega
    · rw [if_neg ht, if_neg (by simp [ht])]
      omega

/-- As many votes have been counted as have come in, and none before the election began. -/
structure Counted (p : Poll) : Prop where
  votes : p.member.election.votes = p.voters.length
  idle : p.member.election.active = false → p.voters = []

/-- What a vote that comes in makes of the count. -/
theorem Counted.votes_start (h : p.Counted) : p.member.election.start.votes = p.voters.length := by
  unfold Election.start
  split
  · exact h.votes
  · rename_i hoff
    rw [h.idle (Bool.not_eq_true _ ▸ hoff)]
    rfl

theorem Counted.after (h : p.Counted) (i : Input) : (p.after i).Counted := by
  have hvoters : (p.after i).voters = if (p.member.after i).election.active then p.cast i else [] := rfl
  refine ⟨?_, fun hoff => hvoters.trans (if_neg (Bool.eq_false_iff.1 hoff))⟩
  rw [hvoters]
  show (p.member.after i).election.votes = _
  cases hv : i.voter? with
  | some id =>
    obtain ⟨a, rfl⟩ := exists_of_voter? hv
    rw [election_after_vote]
    split
    · rfl
    · simp [Election.countVote, Election.active_start, h.votes_start, cast, hv]
  | none =>
    have hcast : p.cast i = p.voters := by simp [cast, hv]
    rw [hcast]
    rcases election_after hv with he | he | he
    · rw [he]
      cases hon : p.member.election.active with
      | true => exact h.votes
      | false =>
        rw [h.votes, h.idle hon]
        rfl
    · rw [he, h.votes_start, if_pos p.member.election.active_start]
    · rw [he]
      rfl

theorem counted_foldl (me : Identity) (directoryAddr : SocketAddress) (is : List Input) :
    (is.foldl after (start me directoryAddr)).Counted := by
  have hstart : (start me directoryAddr).Counted := ⟨rfl, fun _ => rfl⟩
  exact List.foldlRecOn is after hstart fun _ h i _ => h.after i

/-- No vote is spoilt where every voter is in the table and votes once. -/
theorem spoilt_eq_zero {table votes : List ConnectionId} (hn : votes.Nodup) (ht : ∀ v ∈ votes, v ∈ table) :
    spoilt table votes = 0 := by
  induction votes with
  | nil => rfl
  | cons v vs ih =>
    obtain ⟨hv, hvs⟩ := List.nodup_cons.1 hn
    rw [spoilt, if_pos ⟨ht v List.mem_cons_self, hv⟩]
    exact ih hvs fun w hw => ht w (List.mem_cons_of_mem v hw)

/-- The votes that came in are counted with the one that makes the member host. -/
theorem Counted.of_elects (h : p.Counted) {i : Input} (he : p.member.Elects i) :
    0 < (p.cast i).length ∧ (p.member.after i).peers.size ≤ 2 * (p.cast i).length := by
  obtain ⟨id, hv⟩ := Option.isSome_iff_exists.1 he.1
  obtain ⟨a, rfl⟩ := exists_of_voter? hv
  have hvotes : p.member.election.start.countVote.votes = (p.cast (.received id ⟨a, .leaderVote⟩)).length := by
    simp [Election.countVote, h.votes_start, cast, hv]
  rw [elects_vote_iff, Election.isWon_iff, hvotes] at he
  rwa [peers_after_vote]

/-- **What a victory rests on.** Whenever a vote makes a member host, the votes that have come in since its election began
are at least half as many as its connections. They are those of a quorum exactly if so are the votes that are not spoilt;
so they are if no voter voted twice and all are in the table. -/
theorem quorum_iff_unspoilt {me : Identity} {directoryAddr : SocketAddress} {is : List Input} {i : Input}
    (h : (is.foldl after (start me directoryAddr)).member.Elects i) :
    let p := is.foldl after (start me directoryAddr)
    let table := (p.member.after i).peers
    p.cast i ≠ [] ∧ table.size ≤ 2 * (p.cast i).length ∧
      (p.Quorum i ↔ spoilt table.ids (p.cast i) < (p.cast i).length ∧
        table.size ≤ 2 * ((p.cast i).length - spoilt table.ids (p.cast i))) ∧
      ((p.cast i).Nodup → (∀ id ∈ p.cast i, id ∈ table.ids) → p.Quorum i) := by
  intro p table
  obtain ⟨hpos, hhalf⟩ := (counted_foldl me directoryAddr is).of_elects h
  have hcard : (p.backers i).card + spoilt table.ids (p.cast i) = (p.cast i).length := card_add_spoilt _ _
  have hquorum : p.Quorum i ↔ 0 < (p.backers i).card ∧ table.size ≤ 2 * (p.backers i).card := by
    rw [Finset.card_pos]
    exact Iff.rfl
  have hcount : (p.backers i).card = (p.cast i).length - spoilt table.ids (p.cast i) := by omega
  refine ⟨List.ne_nil_of_length_pos hpos, hhalf, ?_, fun hn ht => ?_⟩
  · rw [hquorum, hcount, Nat.sub_pos_iff_lt]
  · rw [hquorum, hcount, spoilt_eq_zero hn ht]
    exact ⟨hpos, hhalf⟩

end Poll

/-- Inputs by which a member loses its host while it is connected to three others. -/
def bereavement : List Input :=
  let ann : Identity := ⟨"ann", ⟨.loopback, 7001⟩⟩
  let cyd : Identity := ⟨"cyd", ⟨.loopback, 7003⟩⟩
  let dee : Identity := ⟨"dee", ⟨.loopback, 7004⟩⟩
  let eve : Identity := ⟨"eve", ⟨.loopback, 7005⟩⟩
  [.join ⟨RoomKey.zeroBlock⟩, .connected 1 (.roomHost ann), .received 2 ⟨cyd.addr, .hello cyd⟩,
    .received 3 ⟨dee.addr, .hello dee⟩, .received 4 ⟨eve.addr, .hello eve⟩, .closed 1]

namespace Poll

/-- Two of three others vote. -/
theorem quorum_iff_unspoilt_bereaved :
    let cyds : Input := .received 2 ⟨⟨.loopback, 7003⟩, .leaderVote⟩
    let dees : Input := .received 3 ⟨⟨.loopback, 7004⟩, .leaderVote⟩
    let p := (bereavement ++ [cyds]).foldl after (start ⟨"bob", ⟨.loopback, 7002⟩⟩ (.v4 ⟨.loopback, 7000⟩))
    p.member.Elects dees ∧ p.cast dees = [2, 3] ∧ p.Quorum dees := by
  intro cyds dees p
  have helects : p.member.Elects dees := by
    rw [elects_vote_iff]
    decide
  have hcast : p.cast dees = [2, 3] := by decide
  have htable : (p.member.after dees).peers.ids = [2, 3, 4] := by decide
  obtain ⟨-, -, -, hquorum⟩ := quorum_iff_unspoilt helects
  refine ⟨helects, hcast, hquorum ?_ ?_⟩
  · decide
  · decide

/-- One of three others votes twice. -/
theorem repeated_vote_elects :
    ¬ ∀ (me : Identity) (directoryAddr : SocketAddress) (is : List Input) (i : Input),
      let p := is.foldl after (start me directoryAddr)
      i.voter?.isSome = true → p.member.isHost = false → (p.member.after i).isHost = true → p.Quorum i := by
  intro h
  let cyds : Input := .received 2 ⟨⟨.loopback, 7003⟩, .leaderVote⟩
  obtain ⟨-, hhalf⟩ := h ⟨"bob", ⟨.loopback, 7002⟩⟩ (.v4 ⟨.loopback, 7000⟩) (bereavement ++ [cyds]) cyds (by decide)
    (by decide) (by decide)
  exact absurd hhalf (by decide)

end Poll

/-! ## When an election is decided -/

/-- A member has not got the votes that it needs, if an election is on. -/
def Undecided (m : Member) : Prop :=
  m.election.active = true → Election.isWon m.election.votes m.peers.size = false

/-- A connection goes from the table, or one in the table turns out to lead where another one leads. -/
def Loses (m : Member) (i : Input) : Prop :=
  (∃ id ∈ m.peers.ids, m.dropped? i = some id) ∨
    ∃ id ∈ m.peers.ids, ∃ u, i.met? = some (id, u) ∧ (m.peers.displaced? id u).isSome = true

/-- A connection goes when the votes in an election fall short by this one. -/
def Strands (m : Member) (i : Input) : Prop :=
  m.election.active = true ∧ 0 < m.election.votes ∧ m.peers.size = 2 * m.election.votes + 1 ∧ m.Loses i

theorem size_after_of_loses (t : m.Tidy) (h : m.Loses i) : (m.after i).peers.size + 1 = m.peers.size := by
  rcases h with ⟨id, hid, hdrop⟩ | ⟨id, hid, u, hmet, hold⟩
  · have hpeers : (m.after i).peers = m.peers.erase id := congrArg Links.peers (rewires_drops hdrop).links
    rw [hpeers]
    exact PeerTable.size_erase t.sorted hid
  · have hpeers : (m.after i).peers = m.peers.insert id u := congrArg Links.peers (rewires_meets hmet).links
    obtain ⟨old, hold⟩ := Option.isSome_iff_exists.1 hold
    rw [hpeers]
    exact PeerTable.size_insert_of_displaced t.sorted hid hold

theorem size_le_size_after (t : m.Tidy) (h : ¬ m.Loses i) (hl : i ≠ .leave) : m.peers.size ≤ (m.after i).peers.size := by
  have hsame {l : Links} {ended : List ConnectionId} (r : m.Rewires i l ended) (hp : l.peers = m.peers) :
      m.peers.size ≤ (m.after i).peers.size := by
    have hpeers : (m.after i).peers = m.peers := (congrArg Links.peers r.links).trans hp
    rw [hpeers]
  cases errand m i with
  | idle ho r => exact hsame r rfl
  | leaves => exact absurd rfl hl
  | consults hrole => exact hsame (rewires_consults hrole) rfl
  | declines hroom => exact hsame (rewires_declines hroom) rfl
  | abandons hi => exact hsame (rewires_abandons hi) rfl
  | @meets _ id u hi =>
    have hpeers : (m.after i).peers = m.peers.insert id u := congrArg Links.peers (rewires_meets hi).links
    rw [hpeers]
    refine PeerTable.size_le_size_insert t.sorted fun hid => ?_
    by_contra hold
    exact h (.inr ⟨id, hid, u, hi, Option.isSome_iff_ne_none.2 hold⟩)
  | @drops _ id hi =>
    have hpeers : (m.after i).peers = m.peers.erase id := congrArg Links.peers (rewires_drops hi).links
    have hid : id ∉ m.peers.ids := fun hid => h (.inl ⟨id, hid, hi⟩)
    rw [hpeers, PeerTable.erase_of_notMem hid]

/-- An election goes on while connections go. -/
theorem election_after_of_loses (h : m.Loses i) (hon : m.election.active = true) :
    (m.after i).election = m.election := by
  have hstart : m.election.start = m.election := if_pos hon
  have t := turn_after m i
  show (m.after i).office.election = m.election
  generalize (m.after i).office = o at t
  cases t with
  | stays | founds | follows | moves => rfl
  | bereft => exact hstart
  | counts | wins | yields | leaves => rcases h with ⟨_, _, hi⟩ | ⟨_, _, _, hi, _⟩ <;> cases hi

/-- An election that goes on is decided only by a connection that goes. -/
theorem Undecided.of_election_eq (h : m.Undecided) (t : m.Tidy) (hi : ¬ m.Strands i) (hl : i ≠ .leave)
    (he : (m.after i).election = m.election) : (m.after i).Undecided := by
  intro hon
  rw [he] at hon ⊢
  have hshort : ¬ (0 < m.election.votes ∧ m.peers.size ≤ 2 * m.election.votes) := by
    rw [← Election.isWon_iff, h hon]
    simp
  rw [Bool.eq_false_iff, Ne, Election.isWon_iff]
  rintro ⟨hpos, hhalf⟩
  by_cases hloses : m.Loses i
  · have hshrunk := size_after_of_loses t hloses
    exact hi ⟨hon, hpos, by omega, hloses⟩
  · have hkept := size_le_size_after t hloses hl
    exact hshort ⟨hpos, hkept.trans hhalf⟩

/-- A vote leaves an election undecided, or the member host. -/
theorem undecided_after_vote (m : Member) (id : ConnectionId) (a : Endpoint) :
    (m.after (.received id ⟨a, .leaderVote⟩)).Undecided := by
  intro hon
  rw [election_after_vote] at hon ⊢
  rw [peers_after_vote]
  split
  · rename_i hwon
    rw [if_pos hwon] at hon
    cases hon
  · rename_i hshort
    exact Bool.eq_false_iff.2 hshort

theorem Undecided.after_iff (h : m.Undecided) (t : m.Tidy) (i : Input) : (m.after i).Undecided ↔ ¬ m.Strands i := by
  constructor
  · rintro hafter ⟨hon, hpos, hsize, hloses⟩
    have hshrunk := size_after_of_loses t hloses
    have helection := election_after_of_loses hloses hon
    have hshort := hafter (helection ▸ hon)
    rw [helection, Bool.eq_false_iff, Ne, Election.isWon_iff] at hshort
    exact hshort ⟨hpos, by omega⟩
  · intro hi
    cases hv : i.voter? with
    | some id =>
      obtain ⟨a, rfl⟩ := exists_of_voter? hv
      exact undecided_after_vote m id a
    | none =>
      by_cases hl : i = .leave
      · subst hl
        exact nofun
      · rcases election_after (m := m) hv with he | he | he
        · exact h.of_election_eq t hi hl he
        · cases hon : m.election.active with
          | true => exact h.of_election_eq t hi hl (he.trans (if_pos hon))
          | false =>
            have hnone : m.election.start.votes = 0 := congrArg Election.votes (if_neg (by simp [hon]))
            intro _
            rw [he, hnone]
            rfl
        · intro hon
          rw [he] at hon
          cases hon

/-- **An election is undecided** all along a run exactly if no connection goes from the table when the votes fall short by
this one. A vote never leaves the member with the votes that it needs and the election on: once it suffices, the member is
host and the election is over. -/
theorem undecided_throughout_iff (me : Identity) (directoryAddr : SocketAddress) (is : List Input) :
    ((∀ past rest, is = past ++ rest → ((outside me directoryAddr).run past).Undecided) ↔
        ∀ past i rest, is = past ++ i :: rest → ¬ ((outside me directoryAddr).run past).Strands i) ∧
      ∀ (m : Member) (id : ConnectionId) (a : Endpoint),
        (m.after (.received id ⟨a, .leaderVote⟩)).Undecided ∧
          ((m.after (.received id ⟨a, .leaderVote⟩)).election.active = true ∨
            (m.after (.received id ⟨a, .leaderVote⟩)).isHost = true) := by
  have htidy (past : List Input) : ((outside me directoryAddr).run past).Tidy :=
    Reachable.tidy (.run (.outside me directoryAddr) past)
  refine ⟨throughout_iff nofun (fun past i h => h.after_iff (htidy past) i) is, fun m id a => ?_⟩
  refine ⟨undecided_after_vote m id a, ?_⟩
  show m.onVote.1.election.active = true ∨ m.onVote.1.isHost = true
  rw [onVote_fst]
  split
  · exact .inr rfl
  · exact .inl m.election.active_start

/-- One of three others votes, and another one is gone. -/
theorem departure_strands : ¬ ∀ m : Member, m.Reachable → m.Undecided := by
  intro h
  let m := (outside ⟨"bob", ⟨.loopback, 7002⟩⟩ (.v4 ⟨.loopback, 7000⟩)).run
    (bereavement ++ [.received 2 ⟨⟨.loopback, 7003⟩, .leaderVote⟩, .closed 3])
  have hm : m.Reachable := .run (.outside _ _) _
  exact absurd (h m hm (by decide)) (by decide)

end Member
end Parley

import Mathlib.Data.Sym.Sym2
import Mathlib.Logic.Relation
import Parley.Proofs.Member.Election
import Parley.Proofs.Room.Mesh

/-!
# Who follows whom when connections break

In a room in which everybody follows the host, connections break, one at a time (`Outage`): both ends are told, messages on
the broken connection may be lost, and members that lose the host hold elections while the host may be alive.

Two members that take over at the same time each hear of the other's victory and yield, so that each follows the other and
nobody is host (`crossing_victories`). If victories do not overlap (`Incident.Orderly`), that cannot happen: whenever nothing
is on its way, a member that follows another one follows a host (`follow_host`).

What carries the proof is that a word of victory on its way to a member is also on its way to everybody who follows that
member (`Accord.covered`).
-/

namespace Parley

variable {n : Nat}

/-! ## Rooms whose connections break -/

/-- A room some of whose connections have broken, and the ends that have yet to be told: `(i, j)` is member `i`'s end of its
connection to member `j`. -/
structure Outage (n : Nat) where
  room : Room n
  broken : List (Sym2 (Fin n))
  closing : List (Fin n × Fin n)

namespace Outage

/-- The members that member `i` hangs up on, of those that it is still connected to. -/
def hangUps (M : Mesh n) (s : Outage n) (i : Fin n) (effects : List Effect) : List (Fin n) :=
  effects.filterMap fun
    | .disconnect id => (M.target? i id).filter fun j => s(i, j) ∉ s.broken
    | .send _ _ | .connect _ _ | .notify _ => none

/-- Gives an input to member `i`, and carries out what comes of it. Where it hangs up, the other end is yet to be told. -/
def input (M : Mesh n) (s : Outage n) (i : Fin n) (x : Member.Input) : Outage n where
  room := s.room.input M i x
  broken := s.broken ++ (s.hangUps M i ((s.room.member i).effectsOf x)).map fun j => s(i, j)
  closing := s.closing ++ (s.hangUps M i ((s.room.member i).effectsOf x)).map fun j => (j, i)

/-- What can happen in such a room. -/
inductive Incident (n : Nat) where
  /-- A message arrives. -/
  | arrival (p : Packet n) (before after : List (Packet n))
  /-- A connection breaks. -/
  | rupture (i j : Fin n)
  /-- A message on a broken connection is lost. -/
  | loss (p : Packet n) (before after : List (Packet n))
  /-- Member `i` is told that its connection to member `j` is gone. -/
  | closure (i j : Fin n)

/-- Messages between two members arrive in the order in which they were sent. -/
def Incident.Possible (s : Outage n) : Incident n → Prop
  | .arrival p before after =>
    s.room.flight = before ++ p :: after ∧ ∀ q ∈ before, ¬ (q.source = p.source ∧ q.target = p.target)
  | .rupture i j => i ≠ j ∧ s(i, j) ∉ s.broken
  | .loss p before after => s.room.flight = before ++ p :: after ∧ s(p.source, p.target) ∈ s.broken
  | .closure i j => (i, j) ∈ s.closing

instance (s : Outage n) : (x : Incident n) → Decidable (x.Possible s)
  | .arrival _ _ _ | .rupture _ _ | .loss _ _ _ => inferInstanceAs (Decidable (_ ∧ _))
  | .closure _ _ => inferInstanceAs (Decidable (_ ∈ _))

/-- The room after an incident. -/
def after (M : Mesh n) (s : Outage n) : Incident n → Outage n
  | .arrival p before after =>
    input M { s with room := { s.room with flight := before ++ after } } p.target
      (.received (M.line p.target p.source) p.envelope)
  | .rupture i j => { s with broken := s(i, j) :: s.broken, closing := s.closing ++ [(i, j), (j, i)] }
  | .loss _ before after => { s with room := { s.room with flight := before ++ after } }
  | .closure i j => input M { s with closing := s.closing.erase (i, j) } i (.closed (M.line i j))

/-- One thing happens. -/
def Step (M : Mesh n) (s t : Outage n) : Prop := ∃ x : Incident n, x.Possible s ∧ t = s.after M x

/-- Everybody is connected to everybody else, ranks the members alike, and takes the first in rank for the host, which is the
only one. The connection to the directory, if there is one, leads to no member. -/
structure Opening (M : Mesh n) (ranks : List Identity) (host : Fin n) (s : Outage n) : Prop where
  seated : ∀ i, M.Seated i (Mesh.others i) (s.room.member i)
  ranking : ∀ i, (s.room.member i).ranking = ⟨ranks, (M.user i).addr⟩
  head : ranks.head? = some (M.user host)
  follows : ∀ i, (s.room.member i).host = some (M.user host).addr
  isHost : ∀ i, (s.room.member i).isHost = true ↔ i = host
  directory : ∀ i j, (s.room.member i).directory ≠ some (M.line i j)
  flight : s.room.flight = []
  broken : s.broken = []
  closing : s.closing = []

/-- No message is on its way, and nobody has to be told of a broken connection. -/
def Quiet (s : Outage n) : Prop := s.room.flight = [] ∧ s.closing = []

instance (s : Outage n) : Decidable s.Quiet := inferInstanceAs (Decidable (_ ∧ _))

end Outage

namespace Room

/-- Member `i` is connected to member `j`, as far as it knows. -/
def Knows (M : Mesh n) (r : Room n) (i j : Fin n) : Prop := ((r.member i).peers.find? (M.user j).addr).isSome = true

/-- Member `i` takes member `j` for the host and is connected to it. -/
def Follows (M : Mesh n) (r : Room n) (i j : Fin n) : Prop :=
  (r.member i).host = some (M.user j).addr ∧ r.Knows M i j

instance (M : Mesh n) (r : Room n) (i j : Fin n) : Decidable (r.Knows M i j) := inferInstanceAs (Decidable (_ = _))

instance (M : Mesh n) (r : Room n) (i j : Fin n) : Decidable (r.Follows M i j) := inferInstanceAs (Decidable (_ ∧ _))

end Room

/-- A word of victory. -/
def Packet.Crowns (p : Packet n) : Prop := p.envelope.message = .leader

instance : DecidablePred (Packet.Crowns (n := n)) := fun _ => inferInstanceAs (Decidable (_ = _))

namespace Outage

/-- An incident with which no victories overlap. A member takes over only if no word of another victory is on its way, and
if it can tell everybody who follows somebody whom it tells; and no word of victory is lost on its way to a member that
follows anybody. -/
def Incident.Orderly (M : Mesh n) (s : Outage n) : Incident n → Prop
  | .arrival p _ _ =>
    .send .allPeers .leader ∈
        (s.room.member p.target).effectsOf (.received (M.line p.target p.source) p.envelope) →
      (∀ q ∈ s.room.flight, ¬ q.Crowns) ∧
        ∀ i j, s.room.Knows M p.target i → s.room.Follows M j i → j ≠ p.target → s.room.Knows M p.target j
  | .loss p _ _ => p.Crowns → ∀ j, ¬ s.room.Follows M p.target j
  | .rupture _ _ | .closure _ _ => True

instance (M : Mesh n) (s : Outage n) : (x : Incident n) → Decidable (x.Orderly M s)
  | .arrival _ _ _ | .loss _ _ _ => inferInstanceAs (Decidable (_ → _))
  | .rupture _ _ | .closure _ _ => inferInstanceAs (Decidable True)

/-- One thing happens, and no victories overlap. -/
def OrderlyStep (M : Mesh n) (s t : Outage n) : Prop :=
  ∃ x : Incident n, x.Possible s ∧ x.Orderly M s ∧ t = s.after M x

end Outage

/-! ## Tables and posts -/

theorem PeerTable.isSome_find?_iff {t : PeerTable} {a : Endpoint} :
    (t.find? a).isSome = true ↔ ∃ e ∈ t.byConnection.entries, e.2.addr = a := by
  simp [PeerTable.find?]

theorem PeerTable.isSome_find?_of_erase {t : PeerTable} {id : ConnectionId} {a : Endpoint}
    (h : ((t.erase id).find? a).isSome = true) : (t.find? a).isSome = true := by
  rw [isSome_find?_iff] at h ⊢
  obtain ⟨e, he, ha⟩ := h
  exact ⟨e, (List.mem_filter.1 he).1, ha⟩

namespace Mesh

variable {M : Mesh n} {i j : Fin n} {js : List (Fin n)} {m : Member} {t : PeerTable}

/-- Forgetting any connection leaves a table of the others. -/
theorem Leads.erase_id (h : M.Leads i js t) (id : ConnectionId) :
    M.Leads i (js.filter fun j => M.line i j ≠ id) (t.erase id) := by
  have hf := List.Perm.filter (fun e : ConnectionId × Identity => decide (e.1 ≠ id)) h
  rwa [List.filter_map] at hf

theorem Leads.isSome_find?_iff (h : M.Leads i js t) : (t.find? (M.user j).addr).isSome = true ↔ j ∈ js := by
  by_cases hj : j ∈ js
  · simp [h.find?_addr hj, hj]
  · simp [h.find?_eq_none hj, hj]

/-- What is posted goes from the member to another one, and one of its effects sends it. -/
theorem mem_post {p : Packet n} {es : List Effect} (h : p ∈ M.post i m es) :
    p.source = i ∧ p.target ≠ i ∧ p.envelope.sender = m.me.addr ∧
      ∃ recipient, .send recipient p.envelope.message ∈ es := by
  obtain ⟨⟨id, message⟩, hout, hp⟩ := List.mem_filterMap.1 h
  obtain ⟨j, hj, rfl⟩ := Option.map_eq_some_iff.1 hp
  obtain ⟨e, he, hmem⟩ := List.mem_flatMap.1 hout
  refine ⟨rfl, mem_others.1 (List.mem_of_find?_eq_some hj), rfl, ?_⟩
  cases e with
  | send recipient message' =>
    obtain ⟨id', -, heq⟩ := List.mem_map.1 hmem
    obtain ⟨-, rfl⟩ := Prod.mk.inj heq
    exact ⟨recipient, he⟩
  | connect addr role => simp at hmem
  | disconnect id' => simp at hmem
  | notify event => simp at hmem

end Mesh

/-! ## Turns -/

namespace Room

/-- From `r` to `t` it was the turn of member `i`, which became `m`. Of the packets, `rest` stayed on their way and `posted`
are new. -/
structure Turn (r t : Room n) (i : Fin n) (m : Member) (rest posted : List (Packet n)) : Prop where
  self : t.member i = m
  other : ∀ j, j ≠ i → t.member j = r.member j
  flight : t.flight = rest ++ posted
  stayed : ∀ p ∈ rest, p ∈ r.flight

theorem turn_input {M : Mesh n} {r : Room n} {i : Fin n} {x : Member.Input} {rest : List (Packet n)} {m : Member}
    {es : List Effect} (h : (r.member i).step x = .ok (m, es)) (hr : ∀ p ∈ rest, p ∈ r.flight) :
    Turn r (input M { r with flight := rest } i x) i m rest (M.post i m es) where
  self := input_member_self h
  other _ hj := input_member_of_ne hj
  flight := input_flight h
  stayed := hr

variable {M : Mesh n} {r t : Room n} {i : Fin n} {m : Member} {rest posted : List (Packet n)}

/-- Whom the others follow does not change. -/
theorem Turn.follows_iff (u : Turn r t i m rest posted) {j k : Fin n} (hj : j ≠ i) :
    t.Follows M j k ↔ r.Follows M j k := by
  simp only [Follows, Knows, u.other j hj]

end Room

/-! ## The accord -/

/-- The messages of an election. -/
def Message.Electoral (message : Message) : Prop :=
  message = .leader ∨ message = .leaderVote ∨ ∃ u, message = .deadUser u

/-- What always holds in a room in which victories do not overlap. -/
structure Accord (M : Mesh n) (r : Room n) : Prop where
  seated : ∀ i, ∃ js, i ∉ js ∧ M.Seated i js (r.member i)
  directory : ∀ i j, (r.member i).directory ≠ some (M.line i j)
  proper : ∀ p ∈ r.flight, p.source ≠ p.target ∧ p.envelope.sender = (M.user p.source).addr ∧ p.envelope.message.Electoral
  heeded : ∀ i j, r.Follows M i j → (r.member j).isHost = true ∨ ∃ p ∈ r.flight, p.Crowns ∧ p.target = i
  covered : ∀ p ∈ r.flight, p.Crowns → ∀ i, r.Follows M i p.target → ∃ q ∈ r.flight, q.Crowns ∧ q.target = i
  crowned : ∀ p ∈ r.flight, p.Crowns → (r.member p.source).isHost = true
  single : ∀ p ∈ r.flight, p.Crowns → ∀ q ∈ r.flight, q.Crowns → p.source = q.source

namespace Accord

variable {M : Mesh n} {r t : Room n} {i : Fin n} {m : Member} {rest posted : List (Packet n)} {es : List Effect}

/-- Nobody follows itself. -/
theorem ne_of_follows (a : Accord M r) {i j : Fin n} (h : r.Follows M i j) : i ≠ j := by
  rintro rfl
  obtain ⟨js, hi, hs⟩ := a.seated i
  exact hi (hs.peers.isSome_find?_iff.1 h.2)

/-- After a turn everybody still knows who it is, if the member whose turn it was does, and lost one connection at most. -/
theorem seated_turn (a : Accord M r) (u : r.Turn t i m rest posted) (hs : Member.SameSeat (r.member i) m)
    (hp : m.peers = (r.member i).peers ∨ ∃ id, m.peers = (r.member i).peers.erase id) :
    ∀ j, ∃ js, j ∉ js ∧ M.Seated j js (t.member j) := by
  intro j
  obtain ⟨js, hj, hseat⟩ := a.seated j
  by_cases hji : j = i
  · subst hji
    rw [u.self]
    rcases hp with hp | ⟨id, hp⟩
    · exact ⟨js, hj, hs.me.trans hseat.me, hs.key.trans hseat.key, hp ▸ hseat.peers⟩
    · refine ⟨js.filter fun k => M.line j k ≠ id, fun h => hj (List.mem_filter.1 h).1, hs.me.trans hseat.me,
        hs.key.trans hseat.key, ?_⟩
      rw [hp]
      exact hseat.peers.erase_id id
  · rw [u.other j hji]
    exact ⟨js, hj, hseat⟩

theorem directory_turn (a : Accord M r) (u : r.Turn t i m rest posted) (hs : Member.SameSeat (r.member i) m) :
    ∀ j k, (t.member j).directory ≠ some (M.line j k) := by
  intro j k
  by_cases hji : j = i
  · subst hji
    rw [u.self, hs.directory]
    exact a.directory j k
  · rw [u.other j hji]
    exact a.directory j k

/-- What a member posts is proper. -/
theorem proper_post (a : Accord M r) (hs : Member.SameSeat (r.member i) m)
    (he : ∀ recipient message, .send recipient message ∈ es → message.Electoral) :
    ∀ p ∈ M.post i m es,
      p.source ≠ p.target ∧ p.envelope.sender = (M.user p.source).addr ∧ p.envelope.message.Electoral := by
  intro p hp
  obtain ⟨rfl, hne, hsender, recipient, hmem⟩ := Mesh.mem_post hp
  obtain ⟨js, -, hseat⟩ := a.seated p.source
  refine ⟨Ne.symm hne, ?_, he recipient _ hmem⟩
  rw [hsender, hs.me, hseat.me]

theorem proper_turn (a : Accord M r) (u : r.Turn t i m rest (M.post i m es)) (hs : Member.SameSeat (r.member i) m)
    (he : ∀ recipient message, .send recipient message ∈ es → message.Electoral) :
    ∀ p ∈ t.flight,
      p.source ≠ p.target ∧ p.envelope.sender = (M.user p.source).addr ∧ p.envelope.message.Electoral := by
  intro p hp
  rw [u.flight, List.mem_append] at hp
  rcases hp with hp | hp
  · exact a.proper p (u.stayed p hp)
  · exact a.proper_post hs he p hp

/-- Modest effects send votes and news of departures. -/
theorem electoral_of_modest (he : ∀ e ∈ es, Effect.Modest e) {recipient : Recipient} {message : Message}
    (h : .send recipient message ∈ es) : message.Electoral :=
  .inr (he _ h)

theorem not_crowns_of_modest (he : ∀ e ∈ es, Effect.Modest e) : ∀ p ∈ M.post i m es, ¬ p.Crowns := by
  intro p hp hc
  obtain ⟨-, -, -, recipient, hmem⟩ := Mesh.mem_post hp
  have hm : p.envelope.message = .leader := hc
  rcases he _ hmem with h | ⟨u, h⟩
  · rw [hm] at h
    cases h
  · rw [hm] at h
    cases h

/-- The words of victory that are on their way after a turn were on their way before. -/
theorem mem_rest_of_crowns (u : r.Turn t i m rest posted) (hp : ∀ p ∈ posted, ¬ p.Crowns) {p : Packet n}
    (h : p ∈ t.flight) (hc : p.Crowns) : p ∈ rest := by
  rw [u.flight, List.mem_append] at h
  exact h.resolve_right fun h => hp p h hc

/-- A member that keeps what it is follows nobody new. -/
theorem follows_of_keeps (u : r.Turn t i m rest posted) (k : Member.Keeps (r.member i) m es) {j l : Fin n}
    (h : t.Follows M j l) : r.Follows M j l := by
  by_cases hji : j = i
  · subst hji
    obtain ⟨hh, hk⟩ := h
    rw [u.self] at hh
    rw [Room.Knows, u.self] at hk
    refine ⟨?_, ?_⟩
    · rcases k.host with he | he
      · exact he ▸ hh
      · rw [he] at hh
        cases hh
    · rcases k.peers with he | ⟨id, he⟩
      · rw [he] at hk
        exact hk
      · rw [he] at hk
        exact PeerTable.isSome_find?_of_erase hk
  · exact (u.follows_iff hji).1 h

/-- A turn with which the member keeps what it is, and no word of victory is taken off the network. -/
theorem keeps (a : Accord M r) (u : r.Turn t i m rest (M.post i m es)) (k : Member.Keeps (r.member i) m es)
    (hr : ∀ p ∈ r.flight, p.Crowns → p ∈ rest) : Accord M t := by
  have hposted := not_crowns_of_modest (M := M) (i := i) (m := m) k.modest
  have hhost : ∀ j, (t.member j).isHost = (r.member j).isHost := by
    intro j
    by_cases hji : j = i
    · rw [hji, u.self, k.isHost]
    · rw [u.other j hji]
  have hmem : ∀ p ∈ r.flight, p.Crowns → p ∈ t.flight := fun p hp hc => u.flight ▸ List.mem_append_left _ (hr p hp hc)
  have hold : ∀ p ∈ t.flight, p.Crowns → p ∈ r.flight := fun p hp hc => u.stayed p (mem_rest_of_crowns u hposted hp hc)
  refine ⟨a.seated_turn u k.seat k.peers, a.directory_turn u k.seat,
    a.proper_turn u k.seat fun _ _ => electoral_of_modest k.modest, ?_, ?_, ?_, ?_⟩
  · intro j l hf
    rw [hhost l]
    rcases a.heeded j l (follows_of_keeps u k hf) with h | ⟨p, hp, hc, ht⟩
    · exact .inl h
    · exact .inr ⟨p, hmem p hp hc, hc, ht⟩
  · intro p hp hc j hf
    obtain ⟨q, hq, hqc, ht⟩ := a.covered p (hold p hp hc) hc j (follows_of_keeps u k hf)
    exact ⟨q, hmem q hq hqc, hqc, ht⟩
  · intro p hp hc
    rw [hhost]
    exact a.crowned p (hold p hp hc) hc
  · intro p hp hc q hq hqc
    exact a.single p (hold p hp hc) hc q (hold q hq hqc) hqc

/-- The words of victory that a member posts when it takes over go to those that it is connected to. -/
theorem crowns_post_iff (a : Accord M r) (w : Member.Wins (r.member i) m es) {j : Fin n} :
    (∃ p ∈ M.post i m es, p.Crowns ∧ p.target = j) ↔ r.Knows M i j := by
  obtain ⟨before, after, rfl, hmodest⟩ := w.effects
  obtain ⟨js, hi, hseat⟩ := a.seated i
  have hto := Mesh.perm_post_allPeers (M := M) (w.peers ▸ hseat.peers : M.Leads i js m.peers) hi .leader
  rw [Room.Knows, hseat.peers.isSome_find?_iff, List.append_cons, Mesh.post_append, Mesh.post_append]
  constructor
  · rintro ⟨p, hp, hc, rfl⟩
    rw [List.mem_append, List.mem_append, or_assoc] at hp
    rcases hp with hp | hp | hp
    · exact absurd hc (not_crowns_of_modest (fun e he => hmodest e (List.mem_append_left _ he)) p hp)
    · obtain ⟨j, hj, rfl⟩ := List.mem_map.1 (hto.mem_iff.1 hp)
      exact hj
    · exact absurd hc (not_crowns_of_modest (fun e he => hmodest e (List.mem_append_right _ he)) p hp)
  · intro hj
    refine ⟨⟨i, j, m.me.addr, .leader⟩, ?_, rfl, rfl⟩
    exact List.mem_append_left _ (List.mem_append_right _ (hto.mem_iff.2 (List.mem_map_of_mem hj)))

/-- A member that takes over sends its word of victory, votes and news of departures. -/
theorem electoral_of_wins (w : Member.Wins (r.member i) m es) {recipient : Recipient} {message : Message}
    (h : .send recipient message ∈ es) : message.Electoral := by
  obtain ⟨before, after, rfl, hmodest⟩ := w.effects
  rcases List.mem_append.1 h with h | h
  · exact electoral_of_modest hmodest (List.mem_append_left _ h)
  · rcases List.mem_cons.1 h with h | h
    · obtain ⟨-, rfl⟩ := Effect.send.inj h
      exact .inl rfl
    · exact electoral_of_modest hmodest (List.mem_append_right _ h)

/-- The winner follows nobody, since it takes itself for the host; the others follow whom they followed. -/
theorem follows_of_wins (a : Accord M r) (u : r.Turn t i m rest posted) (w : Member.Wins (r.member i) m es)
    {j k : Fin n} (h : t.Follows M j k) : j ≠ i ∧ r.Follows M j k := by
  have hji : j ≠ i := by
    rintro rfl
    obtain ⟨js, hj, hseat⟩ := a.seated j
    obtain ⟨hh, hk⟩ := h
    rw [u.self, w.host, Option.some.injEq, hseat.me] at hh
    rw [Room.Knows, u.self, w.peers, ← hh, hseat.peers.isSome_find?_iff] at hk
    exact hj hk
  exact ⟨hji, (u.follows_iff hji).1 h⟩

/-- A member takes over when no word of victory is on its way, and tells everybody who follows somebody whom it tells. -/
theorem wins (a : Accord M r) (u : r.Turn t i m rest (M.post i m es)) (w : Member.Wins (r.member i) m es)
    (hn : ∀ p ∈ r.flight, ¬ p.Crowns)
    (hreach : ∀ j k, r.Knows M i j → r.Follows M k j → k ≠ i → r.Knows M i k) : Accord M t := by
  have hposted : ∀ p ∈ t.flight, p.Crowns → p ∈ M.post i m es := by
    intro p hp hc
    rw [u.flight, List.mem_append] at hp
    exact hp.resolve_left fun h => hn p (u.stayed p h) hc
  have hsource : ∀ p ∈ t.flight, p.Crowns → p.source = i := fun p hp hc => (Mesh.mem_post (hposted p hp hc)).1
  have hcrowned : (t.member i).isHost = true := by rw [u.self, w.isHost]
  refine ⟨a.seated_turn u w.seat (.inl w.peers), a.directory_turn u w.seat,
    a.proper_turn u w.seat fun _ _ => electoral_of_wins w, ?_, ?_, ?_, ?_⟩
  · intro j k hf
    left
    obtain ⟨-, hf⟩ := a.follows_of_wins u w hf
    by_cases hki : k = i
    · rw [hki, hcrowned]
    · rw [u.other k hki]
      rcases a.heeded j k hf with h | ⟨p, hp, hc, -⟩
      · exact h
      · exact absurd hc (hn p hp)
  · intro p hp hc j hf
    obtain ⟨hji, hf⟩ := a.follows_of_wins u w hf
    have hknows : r.Knows M i p.target := (a.crowns_post_iff w).1 ⟨p, hposted p hp hc, hc, rfl⟩
    obtain ⟨q, hq, hqc, ht⟩ := (a.crowns_post_iff w).2 (hreach _ j hknows hf hji)
    exact ⟨q, u.flight ▸ List.mem_append_right _ hq, hqc, ht⟩
  · intro p hp hc
    rw [hsource p hp hc, hcrowned]
  · intro p hp hc q hq hqc
    rw [hsource p hp hc, hsource q hq hqc]

/-- Where a member yields to, when a word of victory reaches it: to the winner. -/
theorem addr_of_leader (a : Accord M r) {p : Packet n} (hp : p ∈ r.flight) :
    (((r.member p.target).peers.get? (M.line p.target p.source)).map Identity.addr).getD p.envelope.sender =
      (M.user p.source).addr := by
  obtain ⟨js, -, hseat⟩ := a.seated p.target
  by_cases hj : p.source ∈ js
  · simp [hseat.peers.get?_line hj]
  · simpa [hseat.peers.get?_eq_none hj] using (a.proper p hp).2.1

/-- A word of victory arrives. -/
theorem yields (a : Accord M r) {p : Packet n} (hp : p ∈ r.flight) (hc : p.Crowns)
    (u : r.Turn t p.target m rest (M.post p.target m es))
    (y : Member.Yields (r.member p.target) m es (M.user p.source).addr)
    (hr : ∀ q ∈ r.flight, q ≠ p → q ∈ rest) : Accord M t := by
  have hne := (a.proper p hp).1
  have hposted := not_crowns_of_modest (M := M) (i := p.target) (m := m) y.modest
  have hmem : ∀ q ∈ r.flight, q.target ≠ p.target → q ∈ t.flight := fun q hq hqt =>
    u.flight ▸ List.mem_append_left _ (hr q hq fun e => hqt (congrArg Packet.target e))
  have hold : ∀ q ∈ t.flight, q.Crowns → q ∈ r.flight := fun q hq hqc =>
    u.stayed q (mem_rest_of_crowns u hposted hq hqc)
  have hwinner : (t.member p.source).isHost = true := by
    rw [u.other _ hne]
    exact a.crowned p hp hc
  -- the one that yields follows the winner if anybody
  have hself : ∀ j, t.Follows M p.target j → j = p.source := by
    rintro j ⟨hh, -⟩
    rw [u.self, y.host, Option.some.injEq] at hh
    exact (M.addr_injective hh).symm
  have hword : ∀ j, r.Follows M j p.target → ∃ q ∈ t.flight, q.Crowns ∧ q.target = j := by
    intro j hf
    obtain ⟨q, hq, hqc, rfl⟩ := a.covered p hp hc j hf
    exact ⟨q, hmem q hq (a.ne_of_follows hf), hqc, rfl⟩
  refine ⟨a.seated_turn u y.seat (.inl y.peers), a.directory_turn u y.seat,
    a.proper_turn u y.seat fun _ _ => electoral_of_modest y.modest, ?_, ?_, ?_, ?_⟩
  · intro j k hf
    by_cases hj : j = p.target
    · subst hj
      rw [hself k hf]
      exact .inl hwinner
    · rw [u.follows_iff hj] at hf
      by_cases hk : k = p.target
      · exact .inr (hword j (hk ▸ hf))
      · rw [u.other k hk]
        rcases a.heeded j k hf with h | ⟨q, hq, hqc, rfl⟩
        · exact .inl h
        · exact .inr ⟨q, hmem q hq hj, hqc, rfl⟩
  · intro q hq hqc j hf
    have hq' := hold q hq hqc
    by_cases hj : j = p.target
    · -- the words that are left are the winner's, and none of these is to itself
      subst hj
      have hsource := a.single p hp hc q hq' hqc
      exact absurd (hsource.symm.trans (hself _ hf).symm) (a.proper q hq').1
    · rw [u.follows_iff hj] at hf
      obtain ⟨q', hq', hqc', rfl⟩ := a.covered q hq' hqc j hf
      exact ⟨q', hmem q' hq' hj, hqc', rfl⟩
  · intro q hq hqc
    rw [← a.single p hp hc q (hold q hq hqc) hqc, hwinner]
  · intro q hq hqc q' hq' hqc'
    exact a.single q (hold q hq hqc) hqc q' (hold q' hq' hqc') hqc'

/-- A message is lost. If it is a word of victory, the member that it is for follows nobody. -/
theorem lost (a : Accord M r) {p : Packet n} {rest : List (Packet n)} (hc : p.Crowns → ∀ j, ¬ r.Follows M p.target j)
    (hr : ∀ q ∈ r.flight, q ≠ p → q ∈ rest) (hs : ∀ q ∈ rest, q ∈ r.flight) : Accord M { r with flight := rest } := by
  have hkept : ∀ q ∈ r.flight, q.Crowns → ∀ j, r.Follows M q.target j → q ∈ rest := by
    rintro q hq hqc j hf
    refine hr q hq ?_
    rintro rfl
    exact hc hqc j hf
  refine ⟨a.seated, a.directory, fun q hq => a.proper q (hs q hq), ?_, ?_, fun q hq => a.crowned q (hs q hq), ?_⟩
  · intro j k hf
    rcases a.heeded j k hf with h | ⟨q, hq, hqc, rfl⟩
    · exact .inl h
    · exact .inr ⟨q, hkept q hq hqc k hf, hqc, rfl⟩
  · intro q hq hqc j hf
    obtain ⟨q', hq', hqc', rfl⟩ := a.covered q (hs q hq) hqc j hf
    exact ⟨q', hkept q' hq' hqc' _ hf, hqc', rfl⟩
  · intro q hq hqc q' hq' hqc'
    exact a.single q (hs q hq) hqc q' (hs q' hq') hqc'

end Accord

namespace Outage

variable {M : Mesh n} {s t : Outage n}

theorem Opening.accord {ranks : List Identity} {host : Fin n} (h : s.Opening M ranks host) : Accord M s.room := by
  have hflight : ∀ p, p ∉ s.room.flight := by simp [h.flight]
  refine ⟨fun i => ⟨Mesh.others i, by simp, h.seated i⟩, h.directory, fun p hp => absurd hp (hflight p), ?_,
    fun p hp => absurd hp (hflight p), fun p hp => absurd hp (hflight p), fun p hp => absurd hp (hflight p)⟩
  rintro i j ⟨hh, -⟩
  rw [h.follows i, Option.some.injEq] at hh
  exact .inl ((h.isHost j).2 (M.addr_injective hh).symm)

section Arrival

variable {p : Packet n} {before after : List (Packet n)}

theorem mem_flight_of_mem_rest (hf : s.room.flight = before ++ p :: after) :
    ∀ q ∈ before ++ after, q ∈ s.room.flight := by
  intro q hq
  rw [hf]
  exact (List.sublist_cons_self p after).append_left before |>.subset hq

theorem mem_rest_of_ne (hf : s.room.flight = before ++ p :: after) {q : Packet n} (hq : q ∈ s.room.flight)
    (h : q ≠ p) : q ∈ before ++ after := by
  simpa [hf, h] using hq

end Arrival

/-- Whatever happens, if no victories overlap. -/
theorem accord_step (a : Accord M s.room) (h : OrderlyStep M s t) : Accord M t.room := by
  obtain ⟨x, hpossible, horderly, rfl⟩ := h
  cases x with
  | arrival p before after =>
    obtain ⟨hf, -⟩ := hpossible
    have hp : p ∈ s.room.flight := by simp [hf]
    have hrest (hm : p.envelope.message ≠ .leader) : ∀ q ∈ s.room.flight, q.Crowns → q ∈ before ++ after :=
      fun q hq hc => mem_rest_of_ne hf hq fun e => hm (e ▸ hc)
    have haddr := a.addr_of_leader hp
    obtain ⟨-, -, hmessage⟩ := a.proper p hp
    obtain ⟨i, j, sender, message⟩ := p
    rcases hmessage with rfl | rfl | ⟨user, rfl⟩
    · obtain ⟨m, es, hs, y⟩ := (s.room.member j).step_leader (M.line j i) sender
      have u := Room.turn_input (M := M) hs (mem_flight_of_mem_rest hf)
      exact a.yields hp rfl u (haddr ▸ y) fun q hq => mem_rest_of_ne hf hq
    · obtain ⟨m, es, hs, k | w⟩ := (s.room.member j).step_vote (M.line j i) sender
      · have u := Room.turn_input (M := M) hs (mem_flight_of_mem_rest hf)
        exact a.keeps u k (hrest (by simp))
      · have u := Room.turn_input (M := M) hs (mem_flight_of_mem_rest hf)
        have hmem : .send .allPeers .leader ∈ es := by
          obtain ⟨es₁, es₂, rfl, -⟩ := w.effects
          simp
        have hes : (s.room.member j).effectsOf (.received (M.line j i) ⟨sender, .leaderVote⟩) = es := by
          simp [Member.effectsOf, hs]
        obtain ⟨hn, hreach⟩ := horderly (hes ▸ hmem)
        exact a.wins u w hn hreach
    · obtain ⟨m, es, hs, k⟩ := (s.room.member j).step_deadUser (M.line j i) sender user
      have u := Room.turn_input (M := M) hs (mem_flight_of_mem_rest hf)
      exact a.keeps u k (hrest (by simp))
  | rupture i j => exact a
  | loss p before after =>
    obtain ⟨hf, -⟩ := hpossible
    exact a.lost horderly (fun q hq => mem_rest_of_ne hf hq) (mem_flight_of_mem_rest hf)
  | closure i j =>
    obtain ⟨m, es, hs, k⟩ := Member.step_closed (a.directory i j)
    have u := Room.turn_input (M := M) hs fun p hp => hp
    exact a.keeps u k fun p hp _ => hp

theorem accord_run {s₀ : Outage n} (a : Accord M s₀.room) (h : Relation.ReflTransGen (OrderlyStep M) s₀ s) :
    Accord M s.room := by
  induction h with
  | refl => exact a
  | tail _ hs ih => exact accord_step ih hs

/-- **Whoever follows, follows a host.** Whenever no message is on its way and nobody has to be told of a broken connection,
a member that takes another one for the host and is connected to it is right, if no victories have overlapped. -/
theorem follow_host {ranks : List Identity} {host : Fin n} {s₀ : Outage n} (h₀ : s₀.Opening M ranks host)
    (h : Relation.ReflTransGen (OrderlyStep M) s₀ s) (hq : s.Quiet) {i j : Fin n} (hf : s.room.Follows M i j) :
    (s.room.member j).isHost = true := by
  rcases (accord_run h₀.accord h).heeded i j hf with hh | ⟨p, hp, -, -⟩
  · exact hh
  · simp [hq.1] at hp

/-- A room in which nothing has happened yet: the members rank as they are numbered, and the first one is host. -/
def fresh (M : Mesh n) (host : Fin n) : Outage n where
  room.member i := { M.seat i with
    ranking := ⟨(List.finRange n).map M.user, (M.user i).addr⟩
    host := some (M.user host).addr
    isHost := i = host }
  room.flight := []
  room.told _ := []
  broken := []
  closing := []

theorem opening_fresh (M : Mesh n) {host : Fin n} (h : (List.finRange n).head? = some host) :
    (fresh M host).Opening M ((List.finRange n).map M.user) host where
  seated i := ⟨rfl, rfl, List.Perm.refl _⟩
  ranking _ := rfl
  head := by simp [h]
  follows _ := rfl
  isHost i := by simp [fresh]
  directory _ _ h := nomatch h
  flight := rfl
  broken := rfl
  closing := rfl

/-- A message from one member to another. -/
def sent (M : Mesh n) (i j : Fin n) (message : Message) : Packet n := ⟨i, j, ⟨(M.user i).addr, message⟩⟩

/-- Four members, which number their connections by the places of those that they lead to. -/
def quartet : Mesh 4 where
  key := ⟨RoomKey.zeroBlock⟩
  user i := ⟨"member", ⟨.loopback, 7001 + UInt16.ofNat i⟩⟩
  line _ j := j
  addr_injective i j h := by
    revert i j
    decide
  line_injective _ := Fin.val_injective

/-- The last two of four members lose their connections to the host and vote for the second one, which takes over; the host
yields to it. -/
theorem follow_host_deposed : ∃ s, Relation.ReflTransGen (OrderlyStep quartet) (fresh quartet 0) s ∧ s.Quiet ∧
    (s.room.member 0).isHost = false ∧ s.room.Follows quartet 0 1 ∧ (s.room.member 1).isHost = true := by
  let told := sent quartet
  have run := Relation.ReflTransGen.refl (r := OrderlyStep quartet) (a := fresh quartet 0)
    |>.tail ⟨.rupture 2 0, by decide, by decide, rfl⟩
    |>.tail ⟨.rupture 3 0, by decide, by decide, rfl⟩
    |>.tail ⟨.closure 2 0, by decide, by decide, rfl⟩
    |>.tail ⟨.closure 3 0, by decide, by decide, rfl⟩
    |>.tail ⟨.arrival (told 2 1 .leaderVote) [] [told 3 1 .leaderVote], by decide, by decide, rfl⟩
    |>.tail ⟨.arrival (told 3 1 .leaderVote) [] [told 1 0 .leaderVote], by decide, by decide, rfl⟩
    |>.tail ⟨.arrival (told 1 0 .leaderVote) [] [told 1 0 .leader, told 1 2 .leader, told 1 3 .leader],
      by decide, by decide, rfl⟩
    |>.tail ⟨.arrival (told 1 0 .leader) [] [told 1 2 .leader, told 1 3 .leader], by decide, by decide, rfl⟩
    |>.tail ⟨.arrival (told 1 2 .leader) [] [told 1 3 .leader], by decide, by decide, rfl⟩
    |>.tail ⟨.arrival (told 1 3 .leader) [] [], by decide, by decide, rfl⟩
    |>.tail ⟨.closure 0 2, by decide, by decide, rfl⟩
    |>.tail ⟨.closure 0 3, by decide, by decide, rfl⟩
  have right := fun hq hf => follow_host (opening_fresh quartet rfl) run hq (i := 0) (j := 1) hf
  exact ⟨_, run, by decide, by decide, by decide, right (by decide) (by decide)⟩

/-- The third of three members loses its connection to the host and votes for the second, which has nobody else to wait for
and takes over; the vote that it hands on makes the host take over once more. Each of the two hears of the other's victory
and yields, so that both follow a member that is not host. -/
theorem crossing_victories : ∃ s, Relation.ReflTransGen (Step .trio) (fresh .trio 0) s ∧ s.Quiet ∧
    s.room.Follows .trio 0 1 ∧ s.room.Follows .trio 1 0 ∧ ∀ i, (s.room.member i).isHost = false := by
  let told := sent .trio
  let dead : Message := .deadUser (Mesh.trio.user 2)
  have run := Relation.ReflTransGen.refl (r := Step .trio) (a := fresh .trio 0)
    |>.tail ⟨.rupture 0 2, by decide, rfl⟩
    |>.tail ⟨.closure 2 0, by decide, rfl⟩
    |>.tail ⟨.closure 0 2, by decide, rfl⟩
    |>.tail ⟨.arrival (told 2 1 .leaderVote) [] [told 0 1 dead], ⟨rfl, by decide⟩, rfl⟩
    |>.tail ⟨.arrival (told 1 0 .leaderVote) [told 0 1 dead] [told 1 0 .leader, told 1 2 .leader],
      ⟨rfl, by decide⟩, rfl⟩
    |>.tail ⟨.arrival (told 1 0 .leader) [told 0 1 dead] [told 1 2 .leader, told 0 1 .leader], ⟨rfl, by decide⟩, rfl⟩
    |>.tail ⟨.arrival (told 0 1 dead) [] [told 1 2 .leader, told 0 1 .leader], ⟨rfl, by decide⟩, rfl⟩
    |>.tail ⟨.arrival (told 0 1 .leader) [told 1 2 .leader] [], ⟨rfl, by decide⟩, rfl⟩
    |>.tail ⟨.arrival (told 1 2 .leader) [] [], ⟨rfl, by decide⟩, rfl⟩
    |>.tail ⟨.closure 2 1, by decide, rfl⟩
  exact ⟨_, run, by decide, by decide, by decide, by decide⟩

end Outage

end Parley

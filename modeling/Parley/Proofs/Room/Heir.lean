import Mathlib.Logic.Relation
import Parley.Proofs.Room.Survivor

/-!
# The heir of a dead host

When the host of a room dies, the heir succeeds it, whatever the order in which the survivors notice and in which their
messages arrive (`heir_succeeds`). Nobody but the heir ever becomes host, and once everybody has noticed and nothing is on
its way, the heir is host and everybody knows.

Every survivor is known by whether it has noticed (`Succession.Stands`). As long as nobody has won (`Contest`), every
survivor that has noticed has sent one vote, which is counted or on its way, and the heir lacks a vote. Once the heir has
won (`Reign`), everybody follows it or will: a word of its victory is on the way.
-/

namespace Parley

variable {n : Nat}

namespace Succession

variable {S : Succession n}

/-- The packets that can be on their way. -/
def Proper (S : Succession n) (p : Packet n) : Prop :=
  p.target = S.host ∨ S.Votes p ∨ S.Acclaims p ∨ S.Announces p

theorem proper_of_vote {i : Fin n} {a : Endpoint} {c : Prop} [Decidable c] {p : Packet n}
    (h : p ∈ if c then [⟨i, S.heir, ⟨a, .leaderVote⟩⟩] else []) : S.Proper p := by
  split at h
  · obtain rfl := List.mem_singleton.1 h
    exact .inr (.inl ⟨rfl, rfl⟩)
  · simp at h

/-- What is sent to the host is not sent to the heir. -/
theorem filter_heir_eq_nil {ps : List (Packet n)} (h : ∀ p ∈ ps, p.target = S.host) :
    ps.filter (·.target = S.heir) = [] := by
  rw [List.filter_eq_nil_iff]
  intro p hp ht
  exact heir_ne ((of_decide_eq_true ht).symm.trans (h p hp))

end Succession

/-! ## Turns -/

namespace Vacancy

variable {S : Succession n} {s t : Vacancy n}

/-- From `s` to `t` it was the turn of member `i`, which became `m`. Of the packets, `rest` stayed on their way and
`posted` are new. -/
structure Turn (s t : Vacancy n) (i : Fin n) (m : Member) (rest posted : List (Packet n)) : Prop where
  self : t.room.member i = m
  other : ∀ j, j ≠ i → t.room.member j = s.room.member j
  flight : t.room.flight = rest ++ posted
  stayed : ∀ p ∈ rest, p ∈ s.room.flight
  closing : ∀ j ∈ t.closing, j ∈ s.closing
  closed : ∀ j, j ≠ i → j ∈ s.closing → j ∈ t.closing

theorem turn_deliver {p : Packet n} {before after : List (Packet n)} {m : Member} {es : List Effect}
    (hf : s.room.flight = before ++ p :: after)
    (h : (s.room.member p.target).step (.received (S.mesh.line p.target p.source) p.envelope) = .ok (m, es)) :
    Turn s ⟨s.room.deliver S.mesh p (before ++ after), s.closing⟩ p.target m (before ++ after)
      (S.mesh.post p.target m es) where
  self := Room.input_member_self h
  other _ hj := Room.input_member_of_ne hj
  flight := Room.input_flight h
  stayed q hq := by
    rw [hf]
    exact (List.sublist_cons_self p after).append_left before |>.subset hq
  closing _ hj := hj
  closed _ _ hj := hj

theorem turn_close {i : Fin n} {m : Member} {es : List Effect}
    (h : (s.room.member i).step (.closed (S.mesh.line i S.host)) = .ok (m, es)) :
    Turn s ⟨s.room.input S.mesh i (.closed (S.mesh.line i S.host)), s.closing.erase i⟩ i m s.room.flight
      (S.mesh.post i m es) where
  self := Room.input_member_self h
  other _ hj := Room.input_member_of_ne hj
  flight := Room.input_flight h
  stayed _ hq := hq
  closing _ hj := List.mem_of_mem_erase hj
  closed _ hj h := (List.mem_erase_of_ne hj).2 h

/-! ## Runs -/

/-- What always holds. `noticed` says who has noticed the death of the host. -/
structure Kept (S : Succession n) (s : Vacancy n) (noticed : Fin n → Bool) : Prop where
  stands : ∀ i, i ≠ S.host → S.Stands i (noticed i) (s.room.member i)
  modest : ∀ i, i ≠ S.host → i ≠ S.heir → (s.room.member i).isHost = false
  proper : ∀ p ∈ s.room.flight, S.Proper p
  survivor : ∀ i ∈ s.closing, i ≠ S.host
  closed : ∀ i, i ≠ S.host → i ∉ s.closing → noticed i = true

/-- Nobody has won: every follower that has noticed has voted, and its vote is counted or on its way. -/
structure Contest (S : Succession n) (s : Vacancy n) (noticed : Fin n → Bool) (voters : List (Fin n)) : Prop where
  vacant : (s.room.member S.heir).isHost = false
  early : ∀ p ∈ s.room.flight, p.target = S.host ∨ S.Votes p
  loyal : ∀ i, i ≠ S.host → i ≠ S.heir → noticed i = false →
    (s.room.member i).host = some S.hostAddr ∧ (s.room.member i).election.active = false
  voted : ∀ i, i ≠ S.host → i ≠ S.heir → noticed i = true → i ∈ voters
  counted : voters.length = Succession.tally (s.room.member S.heir) + (s.room.inbound S.heir).length
  lacking : Succession.tally (s.room.member S.heir) < S.followers.length

/-- The heir has won: everybody follows it, or a word of its victory is on the way. -/
structure Reign (S : Succession n) (s : Vacancy n) : Prop where
  crowned : (s.room.member S.heir).isHost = true
  own : (s.room.member S.heir).host = some S.heirAddr
  known : ∀ i, i ≠ S.host → i ≠ S.heir → (s.room.member i).host = some S.heirAddr ∨
    ∃ p ∈ s.room.flight, p.target = i ∧ p.envelope.message = .leader

section Turn

variable {i : Fin n} {b : Bool} {m : Member} {rest posted : List (Packet n)} {noticed : Fin n → Bool}
  {voters : List (Fin n)}

/-- A turn keeps it, if the member has noticed by then or has lost no connection. -/
theorem Kept.turn (k : Kept S s noticed) (u : Turn s t i m rest posted) (st : S.Stands i b m)
    (hb : b = true ∨ b = noticed i ∧ t.closing = s.closing) (hf : i ≠ S.heir → m.isHost = false)
    (hp : ∀ p ∈ posted, S.Proper p) : Kept S t (Function.update noticed i b) := by
  refine ⟨fun j hj => ?_, fun j hj hh => ?_, fun p h => ?_, fun j hj => ?_, fun j hj hc => ?_⟩
  · by_cases hji : j = i
    · subst hji
      rw [Function.update_self, u.self]
      exact st
    · rw [Function.update_of_ne hji, u.other j hji]
      exact k.stands j hj
  · by_cases hji : j = i
    · subst hji
      rw [u.self]
      exact hf hh
    · rw [u.other j hji]
      exact k.modest j hj hh
  · rw [u.flight, List.mem_append] at h
    rcases h with h | h
    · exact k.proper p (u.stayed p h)
    · exact hp p h
  · exact k.survivor j (u.closing j hj)
  · by_cases hji : j = i
    · subst hji
      rw [Function.update_self]
      rcases hb with hb | ⟨hb, he⟩
      · exact hb
      · exact hb.trans (k.closed j hj (he ▸ hc))
    · rw [Function.update_of_ne hji]
      exact k.closed j hj fun h => hc (u.closed j hji h)

/-- Whatever happens to a member, followers follow or will, if it forgets no host and no word of the victory is lost. -/
theorem Reign.turn (g : Reign S s) (u : Turn s t i m rest posted)
    (hc : i = S.heir → m.isHost = true ∧ m.host = some S.heirAddr)
    (hk : (s.room.member i).host = some S.heirAddr → m.host = some S.heirAddr)
    (hr : ∀ p ∈ s.room.flight, p.envelope.message = .leader → p ∈ rest ∨ p.target = i ∧ m.host = some S.heirAddr) :
    Reign S t := by
  have hheir : (t.room.member S.heir).isHost = true ∧ (t.room.member S.heir).host = some S.heirAddr := by
    by_cases hi : S.heir = i
    · rw [hi, u.self]
      exact hc hi.symm
    · rw [u.other _ hi]
      exact ⟨g.crowned, g.own⟩
  refine ⟨hheir.1, hheir.2, fun j hj hh => ?_⟩
  rcases g.known j hj hh with h | ⟨p, hp, ht, hl⟩
  · left
    by_cases hji : j = i
    · subst hji
      rw [u.self]
      exact hk h
    · rw [u.other j hji]
      exact h
  · rcases hr p hp hl with h | ⟨hi, hm⟩
    · exact .inr ⟨p, u.flight ▸ List.mem_append_left _ h, ht, hl⟩
    · left
      rw [← ht, hi, u.self]
      exact hm

theorem Turn.inbound (u : Turn s t i m rest posted) (j : Fin n) :
    t.room.inbound j = rest.filter (·.target = j) ++ posted.filter (·.target = j) := by
  rw [Room.inbound, u.flight, List.filter_append]

/-- A follower that notices votes once. -/
theorem Contest.follower (c : Contest S s noticed voters) (u : Turn s t i m s.room.flight posted) (hh : i ≠ S.heir)
    (hi : i ≠ S.host) {a : Endpoint}
    (hp : posted = if noticed i = false ∧ (s.room.member i).host = some S.hostAddr ∧
      (s.room.member i).election.active = false then [⟨i, S.heir, ⟨a, .leaderVote⟩⟩] else []) :
    ∃ voters, Contest S t (Function.update noticed i true) voters := by
  have hheir := u.other S.heir (Ne.symm hh)
  have hloyal : ∀ j, j ≠ S.host → j ≠ S.heir → Function.update noticed i true j = false →
      (t.room.member j).host = some S.hostAddr ∧ (t.room.member j).election.active = false := by
    intro j hj hjh hn
    have hji : j ≠ i := by
      rintro rfl
      simp at hn
    rw [Function.update_of_ne hji] at hn
    rw [u.other j hji]
    exact c.loyal j hj hjh hn
  by_cases hn : noticed i = true
  · -- it has voted before
    have hpost : posted = [] := by simpa [hn] using hp
    refine ⟨voters, hheir ▸ c.vacant, ?_, hloyal, ?_, ?_, hheir ▸ c.lacking⟩
    · rw [u.flight, hpost, List.append_nil]
      exact c.early
    · rw [Function.update_eq_self_iff.2 hn.symm]
      exact c.voted
    · rw [hheir, u.inbound, hpost, List.filter_nil, List.append_nil]
      exact c.counted
  · rw [Bool.not_eq_true] at hn
    rw [if_pos ⟨hn, c.loyal i hi hh hn⟩] at hp
    refine ⟨i :: voters, hheir ▸ c.vacant, ?_, hloyal, ?_, ?_, hheir ▸ c.lacking⟩
    · intro p h
      rw [u.flight, hp, List.mem_append, List.mem_singleton] at h
      rcases h with h | rfl
      · exact c.early p h
      · exact .inr ⟨rfl, rfl⟩
    · intro j hj hjh hjn
      by_cases hji : j = i
      · exact hji ▸ List.mem_cons_self
      · rw [Function.update_of_ne hji] at hjn
        exact List.mem_cons_of_mem i (c.voted j hj hjh hjn)
    · have hcount := c.counted
      rw [hheir, u.inbound, hp]
      simp only [List.length_cons, List.length_append, List.filter_cons_of_pos, decide_true, List.filter_nil,
        List.length_nil, Room.inbound] at hcount ⊢
      omega

/-- The contest goes on if the heir does not win and counts what it receives. -/
theorem Contest.heir (c : Contest S s noticed voters) (u : Turn s t S.heir m rest posted) (hm : m.isHost = false)
    (hp : ∀ p ∈ posted, p.target = S.host)
    (hc : Succession.tally m + (rest.filter (·.target = S.heir)).length =
      Succession.tally (s.room.member S.heir) + (s.room.inbound S.heir).length)
    (hl : Succession.tally m < S.followers.length) :
    Contest S t (Function.update noticed S.heir b) voters := by
  refine ⟨u.self ▸ hm, ?_, ?_, ?_, ?_, u.self ▸ hl⟩
  · intro p h
    rw [u.flight, List.mem_append] at h
    rcases h with h | h
    · exact c.early p (u.stayed p h)
    · exact .inl (hp p h)
  · intro j hj hjh hn
    rw [Function.update_of_ne hjh] at hn
    rw [u.other j hjh]
    exact c.loyal j hj hjh hn
  · intro j hj hjh hn
    rw [Function.update_of_ne hjh] at hn
    exact c.voted j hj hjh hn
  · rw [u.self, u.inbound, Succession.filter_heir_eq_nil hp, List.append_nil, hc]
    exact c.counted

/-- The heir wins. -/
theorem Contest.won (u : Turn s t S.heir m rest posted) (hm : m.isHost = true) (ho : m.host = some S.heirAddr)
    (hp : ∀ j, j ≠ S.host → j ≠ S.heir → ∃ p ∈ posted, p.target = j ∧ S.Acclaims p) : Reign S t := by
  refine ⟨u.self ▸ hm, u.self ▸ ho, fun j hj hh => ?_⟩
  obtain ⟨p, h, ht, ha⟩ := hp j hj hh
  exact .inr ⟨p, u.flight ▸ List.mem_append_right _ h, ht, ha.2.2⟩

end Turn

/-- What holds at every moment. -/
def Ordered (S : Succession n) (s : Vacancy n) : Prop :=
  ∃ noticed, Kept S s noticed ∧ ((∃ voters, Contest S s noticed voters) ∨ Reign S s)

theorem Opening.ordered (h : s.Opening S) : Ordered S s := by
  have hidle : Succession.tally (s.room.member S.heir) = 0 := by rw [Succession.tally, h.election]; rfl
  refine ⟨fun _ => false, ⟨fun i _ => ?_, fun i hi _ => ?_, ?_, fun i hi => ?_, fun i hi hc => ?_⟩,
    .inl ⟨[], ?_, ?_, fun i _ _ _ => ⟨h.host i, h.election i⟩, fun i _ _ hn => ?_, ?_, ?_⟩⟩
  · exact ⟨h.seated i, h.ranking i, h.directory i⟩
  · exact Bool.not_eq_true _ ▸ mt (h.isHost i).1 hi
  · simp [h.flight]
  · exact Mesh.mem_others.1 (h.closing ▸ hi)
  · exact absurd (h.closing ▸ Mesh.mem_others.2 hi) hc
  · exact Bool.not_eq_true _ ▸ mt (h.isHost S.heir).1 Succession.heir_ne
  · simp [h.flight]
  · exact absurd hn Bool.false_ne_true
  · simp [hidle, Room.inbound, h.flight]
  · have := S.length_followers
    have := S.survivors
    omega

/-- A survivor loses its connection to the host. -/
theorem Ordered.close (o : Ordered S s) {i : Fin n} (hi : i ∈ s.closing) :
    Ordered S ⟨s.room.input S.mesh i (.closed (S.mesh.line i S.host)), s.closing.erase i⟩ := by
  obtain ⟨noticed, k, phase⟩ := o
  have hne := k.survivor i hi
  have st := k.stands i hne
  by_cases hh : i = S.heir
  · subst hh
    rcases phase with ⟨voters, c⟩ | g
    · obtain ⟨m, es, hs, st', hf, ht, hp⟩ := Succession.heir_hears st c.vacant .closed
      have u := turn_close hs
      refine ⟨_, k.turn u st' (.inl rfl) (fun h => absurd rfl h) fun p h => .inl (hp p h), .inl ⟨voters, ?_⟩⟩
      exact c.heir u hf hp (by rw [ht, Room.inbound]) (ht ▸ c.lacking)
    · obtain ⟨m, es, hs, st', hf, ho, hp⟩ := Succession.heir_announces st g.crowned
      have u := turn_close hs
      refine ⟨_, k.turn u st' (.inl rfl) (fun h => absurd rfl h) fun p h => .inr (.inr (.inr (hp p h))), .inr ?_⟩
      exact g.turn u (fun _ => ⟨hf, ho.trans g.own⟩) ho.trans fun p h _ => .inl h
  · obtain ⟨m, es, hs, st', hf, ho, hp⟩ := Succession.follower_hears st hne hh (k.modest i hne hh) .closed
    have u := turn_close hs
    refine ⟨_, k.turn u st' (.inl rfl) (fun _ => hf) fun p h => Succession.proper_of_vote (hp ▸ h), ?_⟩
    rcases phase with ⟨voters, c⟩ | g
    · exact .inl (c.follower u hh hne hp)
    · exact .inr (g.turn u (fun h => absurd h hh) (Succession.follows_of_hears ho) fun p h _ => .inl h)

section Arrival

variable {i : Fin n} {a : Endpoint} {before after : List (Packet n)}

/-- The other packets stay on their way. -/
theorem mem_rest {p q : Packet n} (hf : s.room.flight = before ++ p :: after) (hq : q ∈ s.room.flight) (h : q ≠ p) :
    q ∈ before ++ after := by
  simpa [hf, h] using hq

/-- As long as nobody has won, what arrives is a vote. -/
theorem Contest.target_eq {noticed : Fin n → Bool} {voters : List (Fin n)} (c : Contest S s noticed voters)
    {p : Packet n} (hf : s.room.flight = before ++ p :: after) (hne : p.target ≠ S.host) : p.target = S.heir := by
  rcases c.early p (by simp [hf]) with h | h
  · exact absurd h hne
  · exact h.1

/-- A vote arrives. -/
theorem Ordered.vote (o : Ordered S s) (hf : s.room.flight = before ++ ⟨i, S.heir, a, .leaderVote⟩ :: after) :
    Ordered S ⟨s.room.deliver S.mesh ⟨i, S.heir, a, .leaderVote⟩ (before ++ after), s.closing⟩ := by
  obtain ⟨noticed, k, phase⟩ := o
  have st := k.stands _ Succession.heir_ne
  obtain ⟨m, es, hs, st', hm⟩ := Succession.step_vote st (S.mesh.line S.heir i) a
  have u := turn_deliver hf hs
  have hproper : ∀ p ∈ S.mesh.post S.heir m es, S.Proper p := by
    rcases hm with ⟨_, _, hp, _⟩ | ⟨_, _, _, _, hp⟩
    · intro p h
      rcases hp p h with h | h
      · exact .inl h
      · exact .inr (.inr (.inl h))
    · exact fun p h => .inl (hp p h)
  refine ⟨_, k.turn u st' (.inr ⟨rfl, rfl⟩) (fun h => absurd rfl h) hproper, ?_⟩
  rcases phase with ⟨voters, c⟩ | g
  · rcases hm with ⟨hhost, ho, _, hp⟩ | ⟨hhost, ho, ht, hlt, hp⟩
    · exact .inr (Contest.won u hhost ho hp)
    · have hle := S.length_company_le (noticed S.heir)
      refine .inl ⟨voters, c.heir u (hhost.trans c.vacant) hp ?_ (by omega)⟩
      simp only [ht, Room.inbound, hf, List.filter_append, List.filter_cons_of_pos, decide_true, List.length_append,
        List.length_cons]
      omega
  · have hcrown : m.isHost = true ∧ m.host = some S.heirAddr := by
      rcases hm with ⟨hhost, ho, _, _⟩ | ⟨hhost, ho, _, _, _⟩
      · exact ⟨hhost, ho⟩
      · exact ⟨hhost.trans g.crowned, ho.trans g.own⟩
    refine .inr (g.turn u (fun _ => hcrown) (fun _ => hcrown.2) fun q hq hl => .inl (mem_rest hf hq ?_))
    rintro rfl
    simp at hl

/-- A word of the heir's victory arrives. -/
theorem Ordered.acclaim (o : Ordered S s) (hf : s.room.flight = before ++ ⟨S.heir, i, a, .leader⟩ :: after)
    (hne : i ≠ S.host) (hh : i ≠ S.heir) :
    Ordered S ⟨s.room.deliver S.mesh ⟨S.heir, i, a, .leader⟩ (before ++ after), s.closing⟩ := by
  obtain ⟨noticed, k, phase⟩ := o
  obtain ⟨m, es, hs, st', hhost, ho, hp⟩ := Succession.follower_follows (k.stands i hne) hh a
  have u := turn_deliver hf hs
  refine ⟨_, k.turn u st' (.inr ⟨rfl, rfl⟩) (fun _ => hhost) (by simp [hp]), ?_⟩
  rcases phase with ⟨voters, c⟩ | g
  · exact absurd (c.target_eq hf hne) hh
  · refine .inr (g.turn u (fun h => absurd h hh) (fun _ => ho) fun q hq hl => ?_)
    by_cases hqp : q = ⟨S.heir, i, a, .leader⟩
    · exact .inr ⟨congrArg Packet.target hqp, ho⟩
    · exact .inl (mem_rest hf hq hqp)

/-- A word of the host's death arrives. -/
theorem Ordered.announce (o : Ordered S s)
    (hf : s.room.flight = before ++ ⟨S.heir, i, a, .deadUser (S.mesh.user S.host)⟩ :: after)
    (hne : i ≠ S.host) (hh : i ≠ S.heir) :
    Ordered S ⟨s.room.deliver S.mesh ⟨S.heir, i, a, .deadUser (S.mesh.user S.host)⟩ (before ++ after), s.closing⟩ := by
  obtain ⟨noticed, k, phase⟩ := o
  obtain ⟨m, es, hs, st', hhost, ho, hp⟩ :=
    Succession.follower_hears (k.stands i hne) hne hh (k.modest i hne hh) (.told (S.mesh.line i S.heir) a)
  have u := turn_deliver hf hs
  refine ⟨_, k.turn u st' (.inl rfl) (fun _ => hhost) fun p h => Succession.proper_of_vote (hp ▸ h), ?_⟩
  rcases phase with ⟨voters, c⟩ | g
  · exact absurd (c.target_eq hf hne) hh
  · refine .inr (g.turn u (fun h => absurd h hh) (Succession.follows_of_hears ho) fun q hq hl =>
      .inl (mem_rest hf hq ?_))
    rintro rfl
    simp at hl

end Arrival

theorem Ordered.step (o : Ordered S s) (h : Step S s t) : Ordered S t := by
  cases h with
  | deliver p before after hf hne =>
    obtain ⟨noticed, k, -⟩ := id o
    have hproper := k.proper p (by simp [hf])
    obtain ⟨i, j, a, message⟩ := p
    rcases hproper with h | ⟨rfl, rfl⟩ | ⟨rfl, hh, rfl⟩ | ⟨rfl, hh, rfl⟩
    · exact absurd h hne
    · exact o.vote hf
    · exact o.acclaim hf hne hh
    · exact o.announce hf hne hh
  | close i hi => exact o.close hi

theorem Opening.ordered_of_run {s₀ : Vacancy n} (h₀ : s₀.Opening S) (h : Relation.ReflTransGen (Step S) s₀ s) :
    Ordered S s := by
  induction h with
  | refl => exact h₀.ordered
  | tail _ hs ih => exact ih.step hs

/-- Once everybody has noticed and nothing is on its way, the contest is over: it would have all votes. -/
theorem Contest.not_quiet {noticed : Fin n → Bool} {voters : List (Fin n)} (k : Kept S s noticed)
    (c : Contest S s noticed voters) : ¬ s.Quiet S := by
  rintro ⟨hclosing, hflight⟩
  have hsub : S.followers ⊆ voters := by
    intro i hi
    have hne : i ≠ S.host := by simpa using (List.mem_filter.1 hi).2
    exact c.voted i hne (Succession.ne_of_mem_company hi) (k.closed i hne (by simp [hclosing]))
  have hle := (List.subperm_of_subset (Succession.nodup_company S.heir true) hsub).length_le
  have hcount := c.counted
  have hlack := c.lacking
  rw [Room.inbound, Succession.filter_heir_eq_nil hflight, List.length_nil] at hcount
  simp only [Succession.followers] at hle hlack
  omega

end Vacancy

/-- **The heir succeeds.** After the death of the host no survivor but the heir ever is host, and once all have noticed and
nothing is on its way to any of them, the heir is host and all survivors have it for host. -/
theorem heir_succeeds {S : Succession n} {s₀ s : Vacancy n} (h₀ : s₀.Opening S)
    (h : Relation.ReflTransGen (Vacancy.Step S) s₀ s) :
    (∀ i, i ≠ S.host → i ≠ S.heir → (s.room.member i).isHost = false) ∧
      (s.Quiet S → (s.room.member S.heir).isHost = true ∧
        ∀ i, i ≠ S.host → (s.room.member i).host = some (S.mesh.user S.heir).addr) := by
  obtain ⟨noticed, k, phase⟩ := h₀.ordered_of_run h
  refine ⟨k.modest, fun hq => ?_⟩
  rcases phase with ⟨voters, c⟩ | g
  · exact absurd hq (c.not_quiet k)
  · refine ⟨g.crowned, fun i hi => ?_⟩
    by_cases hh : i = S.heir
    · rw [hh]
      exact g.own
    · refine (g.known i hi hh).resolve_right ?_
      rintro ⟨p, hp, rfl, -⟩
      exact hi (hq.2 p hp)

/-- The room of three, whose members rank as they are numbered, after the death of the first. -/
def Succession.trio : Succession 3 where
  mesh := .trio
  host := 0
  heir := 1
  ranks := [0, 1, 2].map Mesh.trio.user
  nodup := by decide
  first := by decide
  survivors := by decide

/-- The survivors, none of which has noticed. -/
def Vacancy.fresh (S : Succession n) : Vacancy n where
  room.member i := { S.mesh.seat i with
    ranking := ⟨S.ranks, (S.mesh.user i).addr⟩
    host := some S.hostAddr
    isHost := i = S.host }
  room.flight := []
  room.told _ := []
  closing := Mesh.others S.host

theorem Vacancy.opening_fresh (S : Succession n) : (fresh S).Opening S where
  seated i := ⟨rfl, rfl, List.Perm.refl _⟩
  ranking _ := rfl
  host _ := rfl
  isHost i := by simp [fresh]
  election _ := rfl
  directory _ _ h := nomatch h
  flight := rfl
  closing := rfl

/-- A vote makes the heir host before it has noticed anything. -/
theorem heir_succeeds_unaware : ∃ s, Relation.ReflTransGen (Vacancy.Step Succession.trio) (.fresh .trio) s ∧
    s.Quiet .trio ∧ s.room.flight ≠ [] ∧ (s.room.member 1).isHost = true ∧ (s.room.member 2).isHost = false ∧
    (s.room.member 2).host = some (Mesh.trio.user 1).addr := by
  let sent (i j : Fin 3) (message : Message) : Packet 3 := ⟨i, j, ⟨(Mesh.trio.user i).addr, message⟩⟩
  have run := Relation.ReflTransGen.refl (r := Vacancy.Step Succession.trio) (a := .fresh .trio)
    |>.tail (.close _ 2 (by decide))
    |>.tail (.deliver _ (sent 2 1 .leaderVote) [] [] rfl (by decide))
    |>.tail (.close _ 1 (by decide))
    |>.tail (.deliver _ (sent 1 2 .leader) [sent 1 0 .leaderVote, sent 1 0 .leader]
      [sent 1 2 (.deadUser (Mesh.trio.user 0))] rfl (by decide))
    |>.tail (.deliver _ (sent 1 2 (.deadUser (Mesh.trio.user 0))) [sent 1 0 .leaderVote, sent 1 0 .leader] []
      rfl (by decide))
  have h := heir_succeeds (Vacancy.opening_fresh .trio) run
  refine ⟨_, run, ⟨rfl, by decide⟩, by decide, ?_, h.1 2 (by decide) (by decide), ?_⟩
  · exact (h.2 ⟨rfl, by decide⟩).1
  · exact (h.2 ⟨rfl, by decide⟩).2 2 (by decide)

end Parley

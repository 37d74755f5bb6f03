import Parley.Proofs.Member.Links

/-!
# Departures

The table of a member loses an address in two ways. The connection to it is over, by whatever message: then the member
reports the departure and ranks the address no more (`Member.Tidy.reports_of_dropped`). Or somebody at another address is met
on the connection, and takes the place of who was there: then no departure is reported, and nobody loses a rank
(`Member.Renames.silent`). Apart from leaving there is no third way (`Member.PartsWith.dropped_or_renames`), so a departure is
reported unless somebody else is met in its place (`Member.Reachable.reports_iff`).
-/

namespace Parley

/-! ## What a table loses -/

namespace PeerTable

variable {t : PeerTable} {id j : ConnectionId} {u : Identity} {a : Endpoint}

theorem exists_get?_of_mem (h : t.byConnection.Sorted) (ha : a ∈ t.users.map Identity.addr) :
    ∃ id u, t.get? id = some u ∧ u.addr = a := by
  obtain ⟨u, hu, rfl⟩ := List.mem_map.1 ha
  obtain ⟨e, he, rfl⟩ := List.mem_map.1 hu
  exact ⟨e.1, e.2, SortedMap.get?_of_mem h he, rfl⟩

theorem mem_addr_of_get? (h : t.get? id = some u) : u.addr ∈ t.users.map Identity.addr :=
  List.mem_map_of_mem (mem_users_of_get? h)

/-- A connection that is displaced leads to the same member. -/
theorem get?_of_displaced? (h : t.byConnection.Sorted) (hold : t.displaced? id u = some j) :
    ∃ v, t.get? j = some v ∧ v.addr = u.addr := by
  obtain ⟨e, he, rfl⟩ := Option.map_eq_some_iff.1 hold
  have hp := List.find?_some he
  simp only [Bool.and_eq_true, Identity.same, decide_eq_true_eq] at hp
  exact ⟨e.2, SortedMap.get?_of_mem h (List.mem_of_find?_eq_some he), hp.2⟩

theorem get?_insert_of_ne (hne : j ≠ id) (hold : t.displaced? id u ≠ some j) : (t.insert id u).get? j = t.get? j := by
  unfold insert get?
  split
  · rename_i old hd
    have hj : j ≠ old := by
      rintro rfl
      exact hold hd
    exact (SortedMap.get?_insert_of_ne _ _ hne).trans (SortedMap.get?_erase_of_ne _ hj)
  · exact SortedMap.get?_insert_of_ne _ _ hne

/-- An address that is lost to an entry stood on the connection of the entry. -/
theorem get?_of_lost_insert (h : t.byConnection.Sorted) (ha : a ∈ t.users.map Identity.addr)
    (hlost : a ∉ (t.insert id u).users.map Identity.addr) : ∃ v, t.get? id = some v ∧ v.addr = a ∧ u.addr ≠ a := by
  obtain ⟨j, v, hv, rfl⟩ := exists_get?_of_mem h ha
  have hu : u.addr ≠ v.addr := fun heq => hlost (heq ▸ mem_addr_of_get? (t.get?_insert_self id u))
  by_cases hj : j = id
  · exact ⟨v, hj ▸ hv, rfl, hu⟩
  · have hkept : t.displaced? id u ≠ some j := by
      intro hold
      obtain ⟨w, hw, haddr⟩ := get?_of_displaced? h hold
      rw [hv] at hw
      exact hu (Option.some.inj hw ▸ haddr).symm
    exact absurd (mem_addr_of_get? ((get?_insert_of_ne hj hkept).trans hv)) hlost

/-- An address that is lost with a connection stood on it. -/
theorem get?_of_lost_erase (h : t.byConnection.Sorted) (ha : a ∈ t.users.map Identity.addr)
    (hlost : a ∉ (t.erase id).users.map Identity.addr) : ∃ v, t.get? id = some v ∧ v.addr = a := by
  obtain ⟨j, v, hv, rfl⟩ := exists_get?_of_mem h ha
  by_cases hj : j = id
  · exact ⟨v, hj ▸ hv, rfl⟩
  · exact absurd (mem_addr_of_get? ((SortedMap.get?_erase_of_ne _ hj).trans hv)) hlost

end PeerTable

namespace Member

variable {m : Member} {i : Input} {id : ConnectionId} {u : Identity} {a : Endpoint}

/-- An input takes an address from the table. -/
structure PartsWith (m : Member) (i : Input) (a : Endpoint) : Prop where
  before : a ∈ m.snapshot.peers
  after : a ∉ (m.after i).snapshot.peers

/-- The member reports that who listens at an address is gone, and ranks the address no more. -/
structure Reports (m : Member) (i : Input) (a : Endpoint) : Prop where
  notified : ∃ u, u.addr = a ∧ .notify (.peerLeft u) ∈ m.effectsOf i
  unranked : a ∉ (m.after i).ranking.order

/-- Somebody at another address is met on the connection that leads to an address. -/
def Renames (m : Member) (i : Input) (a : Endpoint) : Prop :=
  ∃ id u v, i.met? = some (id, u) ∧ m.peers.get? id = some v ∧ v.addr = a ∧ u.addr ≠ a

/-! ## Connections that are over -/

theorem peerLeft_mem_forget (m : Member) (user : Identity) (announce : Bool) :
    .notify (.peerLeft user) ∈ (m.forget user announce).2 := by
  unfold forget
  dsimp only
  split
  · exact List.mem_append_left _ List.mem_cons_self
  · exact List.mem_cons_self

theorem ranking_forget (m : Member) (user : Identity) (announce : Bool) :
    (m.forget user announce).1.ranking = m.ranking.remove user.addr := by
  rw [forget_fst]
  split <;> rfl

/-- With the connection to another member, its departure is reported and its rank is lost. -/
theorem Tidy.reports_of_dropped (t : m.Tidy) (h : m.dropped? i = some id) (hu : m.peers.get? id = some u)
    (hne : u.addr ≠ m.me.addr) : m.Reports i u.addr := by
  obtain ⟨before, -, hstep⟩ := step_dropped h
  rw [hu] at hstep
  obtain ⟨announce, hstep⟩ := hstep
  constructor
  · refine ⟨u, rfl, ?_⟩
    rw [effectsOf, hstep]
    exact List.mem_append_right _ (peerLeft_mem_forget ..)
  · rw [Member.after, hstep]
    dsimp only
    rw [ranking_forget, Ranking.order_remove, if_neg (t.self ▸ hne)]
    exact t.proper.nodup.not_mem_erase

/-! ## Somebody else on a connection -/

/-- Whoever is met, nobody's departure is reported, and nobody loses a rank. -/
theorem silent_of_met (h : i.met? = some (id, u)) :
    (∀ v, .notify (.peerLeft v) ∉ m.effectsOf i) ∧
      ((m.after i).ranking = m.ranking ∨ (m.after i).ranking = m.ranking.push u) := by
  cases i with
  | connected id' role =>
    cases role with
    | roomHost v | member v =>
      cases h
      exact ⟨fun w => by simp [effectsOf, step, onConnected, register], .inr rfl⟩
    | discover | advertise => cases h
  | received id' e =>
    obtain ⟨sender, message⟩ := e
    cases message with
    | hello v =>
      cases h
      have heffects : m.effectsOf (.received id ⟨sender, .hello u⟩) =
        .notify (.messageReceived (m.peers.get? id) (.hello u)) :: (m.onHello id u).2 := rfl
      have hafter : m.after (.received id ⟨sender, .hello u⟩) = (m.onHello id u).1 := rfl
      rw [heffects, hafter]
      unfold onHello register
      dsimp only
      split
      · exact ⟨fun w => by split <;> simp, .inr rfl⟩
      · exact ⟨fun w => by split <;> simp, .inl rfl⟩
    | _ => cases h
  | _ => cases h

/-! ## Addresses that are lost -/

/-- An address goes because its connection is over, or because somebody else is met there. -/
theorem PartsWith.dropped_or_renames (hl : m.PartsWith i a) (hs : m.peers.byConnection.Sorted) (hi : i ≠ .leave) :
    (∃ id u, m.dropped? i = some id ∧ m.peers.get? id = some u ∧ u.addr = a) ∨ m.Renames i a := by
  have hbefore : a ∈ m.links.peers.users.map Identity.addr := hl.before
  have hlost : a ∉ (m.after i).links.peers.users.map Identity.addr := hl.after
  have hkept {l : Links} (h : (m.after i).links = l) (hp : l.peers = m.peers) : False := by
    rw [h, hp] at hlost
    exact hlost hbefore
  cases errand m i with
  | leaves => exact absurd rfl hi
  | idle _ hr => exact (hkept hr.links rfl).elim
  | consults hr => exact (hkept (rewires_consults hr).links rfl).elim
  | declines hr => exact (hkept (rewires_declines hr).links rfl).elim
  | abandons hr => exact (hkept (rewires_abandons hr).links rfl).elim
  | meets hmet =>
    rw [(rewires_meets hmet).links] at hlost
    obtain ⟨v, hv, haddr, hu⟩ := PeerTable.get?_of_lost_insert hs hbefore hlost
    exact .inr ⟨_, _, v, hmet, hv, haddr, hu⟩
  | drops hd =>
    rw [(rewires_drops hd).links] at hlost
    obtain ⟨v, hv, haddr⟩ := PeerTable.get?_of_lost_erase hs hbefore hlost
    exact .inl ⟨_, v, hd, hv, haddr⟩

/-- Where somebody else is met nobody's departure is reported, and who was there keeps the rank. -/
theorem Renames.silent (h : m.Renames i a) :
    (∀ u, .notify (.peerLeft u) ∉ m.effectsOf i) ∧ (a ∈ (m.after i).ranking.order ↔ a ∈ m.ranking.order) := by
  obtain ⟨id, u, v, hmet, -, -, hu⟩ := h
  obtain ⟨hsilent, hr | hr⟩ := silent_of_met (m := m) hmet
  · exact ⟨hsilent, by rw [hr]⟩
  · refine ⟨hsilent, ?_⟩
    rw [hr, Ranking.order_push]
    split
    · exact Iff.rfl
    · rw [List.mem_append, List.mem_singleton, or_iff_left (Ne.symm hu)]

/-- **A departure is reported unless somebody else is there.** Whenever an input other than the command to leave takes the
address of another member from the table, the member reports the departure and ranks the address no more, or somebody at
another address is met on the connection that led there. In the second case no departure is reported, and the address is
ranked if it was before. -/
theorem Reachable.reports_iff (h : m.Reachable) (hi : i ≠ .leave) (hl : m.PartsWith i a) (hne : a ≠ m.me.addr) :
    (m.Reports i a ↔ ¬ m.Renames i a) ∧
      (m.Renames i a →
        (∀ u, .notify (.peerLeft u) ∉ m.effectsOf i) ∧ (a ∈ (m.after i).ranking.order ↔ a ∈ m.ranking.order)) := by
  refine ⟨⟨fun hr hren => ?_, fun hren => ?_⟩, Renames.silent⟩
  · obtain ⟨u, -, hu⟩ := hr.notified
    exact hren.silent.1 u hu
  · obtain ⟨id, u, hd, hu, rfl⟩ := (hl.dropped_or_renames h.tidy.sorted hi).resolve_right hren
    exact h.tidy.reports_of_dropped hd hu hne

/-- Inputs by which a member joins a room and meets a second member of it. -/
def acquaintance : List Input :=
  [.join ⟨RoomKey.zeroBlock⟩, .connected 1 (.roomHost ⟨"ann", ⟨.loopback, 7001⟩⟩),
    .connected 2 (.member ⟨"cyd", ⟨.loopback, 7003⟩⟩)]

/-- Cyd says goodbye. -/
theorem reports_iff_bye :
    let m := (outside ⟨"bob", ⟨.loopback, 7002⟩⟩ (.v4 ⟨.loopback, 7000⟩)).run acquaintance
    let bye : Input := .received 2 ⟨⟨.loopback, 7003⟩, .bye⟩
    m.PartsWith bye ⟨.loopback, 7003⟩ ∧ m.Reports bye ⟨.loopback, 7003⟩ := by
  intro m bye
  have h : m.Reachable := (Reachable.outside _ _).run _
  have hl : m.PartsWith bye ⟨.loopback, 7003⟩ := ⟨by decide, by decide⟩
  have hstays : ¬ m.Renames bye ⟨.loopback, 7003⟩ := by
    rintro ⟨id, u, v, hmet, -⟩
    cases hmet
  exact ⟨hl, (h.reports_iff (by decide) hl (by decide)).1.2 hstays⟩

/-- Dee says hello on the connection that led to cyd. -/
theorem renamed_unreported :
    ¬ ∀ (m : Member) (i : Input) (a : Endpoint), m.Reachable → i ≠ .leave → a ≠ m.me.addr → m.PartsWith i a → m.Reports i a := by
  intro h
  let m := (outside ⟨"bob", ⟨.loopback, 7002⟩⟩ (.v4 ⟨.loopback, 7000⟩)).run acquaintance
  have hr : m.Reports (.received 2 ⟨⟨.loopback, 7004⟩, .hello ⟨"dee", ⟨.loopback, 7004⟩⟩⟩) ⟨.loopback, 7003⟩ :=
    h m _ _ ((Reachable.outside _ _).run _) (by decide) (by decide) ⟨by decide, by decide⟩
  exact absurd hr.unranked (by decide)

end Member
end Parley

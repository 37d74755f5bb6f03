import Parley.Proofs.Member.Links

/-!
# Which connections a member holds

A member hears which connections have been opened for it and which have been lost, and asks for others to be closed. Beside
it an `Account` keeps which of them are open, and is `Exact` if the member holds those and no others.

The account does not stay exact in every run: a member that has a connection to the directory and is given another one
forgets the first, which nobody closes (`Account.forgets_directory`). Six things of this kind can happen (`Account.Lapse`).
Whatever else a member is given, the account stays exact (`Account.exact_throughout_iff`).
-/

namespace Parley.Member

variable {i : Input} {id : ConnectionId} {u : Identity} {role : Role}

/-! ## The account -/

/-- A member, with the connections that have been opened for it and those that are open. -/
structure Account where
  member : Member
  opened : List ConnectionId
  live : List ConnectionId

namespace Account

/-- A member outside any room has no connections. -/
def start (me : Identity) (directoryAddr : SocketAddress) : Account where
  member := outside me directoryAddr
  opened := []
  live := []

/-- The account after an input. -/
def after (a : Account) (i : Input) : Account where
  member := a.member.after i
  opened := a.opened ++ i.opened?.toList
  live := (a.live ++ i.opened?.toList).filter (· ∉ a.member.ended i)

/-- Of the connections that have been opened for it the member holds those that are open. -/
def Exact (a : Account) : Prop := ∀ id ∈ a.opened, a.member.links.Holds id ↔ id ∈ a.live

/-- The connection to the directory has been opened for the member. -/
def Dialled (a : Account) : Prop := ∀ id, a.member.directory = some id → id ∈ a.opened

/-- How a member loses count of its connections. -/
inductive Lapse (a : Account) : Input → Prop
  /-- A connection to the directory is open, and the one before it is forgotten, which nobody closes. -/
  | supplants {d id : ConnectionId} {role : Role} (hrole : role = .discover ∨ role = .advertise)
    (hd : a.member.directory = some d) (hne : d ≠ id) (h : d ∉ a.member.peers.ids) : Lapse a (.connected id role)
  /-- There is no room to advertise, and the new connection is closed. It stays in the table. -/
  | declines {id : ConnectionId} (hroom : a.member.inRoom = false) (h : id ∈ a.member.peers.ids) :
    Lapse a (.connected id .advertise)
  /-- Somebody is met to whom the connection to the directory leads. It is closed and stays the one to the directory. -/
  | displaces {i : Input} {d id : ConnectionId} {u : Identity} (hi : i.met? = some (id, u))
    (hd : a.member.directory = some d) (h : a.member.peers.displaced? id u = some d) : Lapse a i
  /-- Somebody says hello on a connection that is over. -/
  | revives {id : ConnectionId} {sender : Endpoint} {u : Identity} (ho : id ∈ a.opened) (h : id ∉ a.live) :
    Lapse a (.received id ⟨sender, .hello u⟩)
  /-- The connection to the directory is over, and stays in the table. -/
  | abandons {i : Input} {d : ConnectionId} (hi : a.member.Abandons i) (hd : a.member.directory = some d)
    (h : d ∈ a.member.peers.ids) : Lapse a i
  /-- A connection goes from the table and is closed. It stays the one to the directory. -/
  | drops {i : Input} {d : ConnectionId} (hi : a.member.dropped? i = some d) (hd : a.member.directory = some d) :
    Lapse a i

variable {a : Account} {l : Links} {e : List ConnectionId}

theorem Dialled.after (h : a.Dialled) (i : Input) : (a.after i).Dialled := by
  intro d hd
  replace hd : (a.member.after i).links.directory = some d := hd
  show d ∈ a.opened ++ i.opened?.toList
  cases errand a.member i with
  | idle ho r =>
    rw [r.links] at hd
    exact List.mem_append_left _ (h d hd)
  | leaves => cases hd
  | consults hrole =>
    rw [(rewires_consults hrole).links] at hd
    exact List.mem_append_right _ (Option.mem_toList.2 hd)
  | declines hroom =>
    rw [(rewires_declines hroom).links] at hd
    cases hd
  | meets hi =>
    rw [(rewires_meets hi).links] at hd
    exact List.mem_append_left _ (h d hd)
  | abandons hi =>
    rw [(rewires_abandons hi).links] at hd
    cases hd
  | drops hi =>
    rw [(rewires_drops hi).links] at hd
    exact List.mem_append_left _ (h d hd)

/-- What it takes for an exact account to stay exact. -/
theorem exact_after_iff (h : a.Exact) (r : a.member.Rewires i l e) :
    (a.after i).Exact ↔
      (∀ id, i.opened? = some id → (l.Holds id ↔ id ∉ e)) ∧
        ∀ id ∈ a.opened, i.opened? ≠ some id → (l.Holds id ↔ a.member.links.Holds id ∧ id ∉ e) := by
  have hopened (id : ConnectionId) : id ∈ (a.after i).opened ↔ id ∈ a.opened ∨ i.opened? = some id := by
    show id ∈ a.opened ++ i.opened?.toList ↔ _
    rw [List.mem_append, Option.mem_toList]
  have hlive (id : ConnectionId) : id ∈ (a.after i).live ↔ (id ∈ a.live ∨ i.opened? = some id) ∧ id ∉ e := by
    show id ∈ (a.live ++ i.opened?.toList).filter (· ∉ a.member.ended i) ↔ _
    rw [r.ended, List.mem_filter, List.mem_append, Option.mem_toList, decide_eq_true_eq]
  have hlinks : (a.after i).member.links = l := r.links
  unfold Exact
  rw [hlinks]
  constructor
  · intro hx
    constructor
    · intro id ho
      rw [hx id ((hopened id).2 (.inr ho)), hlive]
      exact and_iff_right (.inr ho)
    · intro id hid ho
      rw [hx id ((hopened id).2 (.inl hid)), hlive, or_iff_left ho, h id hid]
  · rintro ⟨hnew, hold⟩ id hid
    rw [hlive]
    by_cases ho : i.opened? = some id
    · rw [hnew id ho]
      exact (and_iff_right (.inr ho)).symm
    · have hmem := ((hopened id).1 hid).resolve_right ho
      rw [hold id hmem ho, or_iff_left ho, h id hmem]

/-- So where no connection is opened. -/
theorem exact_after_iff_of_none (h : a.Exact) (r : a.member.Rewires i l e) (ho : i.opened? = none) :
    (a.after i).Exact ↔ ∀ id ∈ a.opened, (l.Holds id ↔ a.member.links.Holds id ∧ id ∉ e) := by
  rw [exact_after_iff h r, ho]
  constructor
  · intro hx id hid
    exact hx.2 id hid nofun
  · intro hx
    exact ⟨nofun, fun id hid _ => hx id hid⟩

/-- So where one is opened. -/
theorem exact_after_iff_of_some (h : a.Exact) (r : a.member.Rewires i l e) (ho : i.opened? = some id) :
    (a.after i).Exact ↔
      (l.Holds id ↔ id ∉ e) ∧ ∀ j ∈ a.opened, j ≠ id → (l.Holds j ↔ a.member.links.Holds j ∧ j ∉ e) := by
  rw [exact_after_iff h r, ho]
  constructor
  · rintro ⟨hnew, hold⟩
    exact ⟨hnew id rfl, fun j hj hne => hold j hj fun hid => hne (Option.some.inj hid).symm⟩
  · rintro ⟨hnew, hold⟩
    constructor
    · intro j hj
      obtain rfl := Option.some.inj hj
      exact hnew
    · intro j hj hne
      exact hold j hj fun hid => hne (congrArg some hid.symm)

/-! ## What it takes, errand by errand -/

theorem Exact.idle (h : a.Exact) (ho : i.opened? = none) (r : a.member.Rewires i a.member.links []) :
    (a.after i).Exact := by
  rw [exact_after_iff_of_none h r ho]
  intro id _
  exact (and_iff_left List.not_mem_nil).symm

theorem Exact.leaves (h : a.Exact) : (a.after .leave).Exact := by
  rw [exact_after_iff_of_none h (rewires_leave a.member) rfl]
  intro id _
  constructor
  · rintro (hd | hmem)
    · cases hd
    · cases hmem
  · rintro ⟨hd | hmem, hne⟩
    · exact absurd (List.mem_append_right _ (Option.mem_toList.2 hd)) hne
    · exact absurd (List.mem_append_left _ hmem) hne

/-- Where a new connection takes the place of the one to the directory, that one has to be in the table. -/
theorem Dialled.replaces_iff (hk : a.Dialled) {d? : Option ConnectionId} (hd : ∀ j, d? = some j → j = id)
    (he : ∀ j ∈ e, j = id) :
    (∀ j ∈ a.opened, j ≠ id → ((⟨d?, a.member.peers⟩ : Links).Holds j ↔ a.member.links.Holds j ∧ j ∉ e)) ↔
      ∀ d, a.member.directory = some d → d ≠ id → d ∈ a.member.peers.ids := by
  constructor
  · intro hold d hdir hne
    have hheld := (hold d (hk d hdir) hne).2 ⟨.inl hdir, fun hmem => hne (he d hmem)⟩
    exact hheld.resolve_left fun hnew => hne (hd d hnew)
  · intro htable j _ hne
    constructor
    · rintro (hnew | hmem)
      · exact absurd (hd j hnew) hne
      · exact ⟨.inr hmem, fun hend => hne (he j hend)⟩
    · rintro ⟨hdir | hmem, -⟩
      · exact .inr (htable j hdir hne)
      · exact .inr hmem

theorem Exact.consults_iff (h : a.Exact) (hk : a.Dialled)
    (hrole : role = .discover ∨ role = .advertise ∧ a.member.inRoom = true) :
    (a.after (.connected id role)).Exact ↔ ∀ d, a.member.directory = some d → d ≠ id → d ∈ a.member.peers.ids := by
  have hnew : (⟨some id, a.member.peers⟩ : Links).Holds id ↔ id ∉ ([] : List ConnectionId) :=
    iff_of_true (.inl rfl) List.not_mem_nil
  rw [exact_after_iff_of_some h (rewires_consults hrole) rfl, and_iff_right hnew]
  exact hk.replaces_iff (fun j hj => (Option.some.inj hj).symm) nofun

/-- Besides, a connection that is closed at once must not be in the table. -/
theorem Exact.declines_iff (h : a.Exact) (hk : a.Dialled) (hroom : a.member.inRoom = false) :
    (a.after (.connected id .advertise)).Exact ↔
      id ∉ a.member.peers.ids ∧ ∀ d, a.member.directory = some d → d ≠ id → d ∈ a.member.peers.ids := by
  have hnew : ((⟨none, a.member.peers⟩ : Links).Holds id ↔ id ∉ [id]) ↔ id ∉ a.member.peers.ids := by
    rw [iff_false_right (not_not.2 (List.mem_singleton_self id))]
    exact not_congr (or_iff_right nofun)
  rw [exact_after_iff_of_some h (rewires_declines hroom) rfl, hnew]
  exact and_congr_right' (hk.replaces_iff nofun fun j hj => List.mem_singleton.1 hj)

/-- The connection to the directory must not be displaced, and nobody may say hello on a connection that is over. -/
theorem Exact.meets_iff (h : a.Exact) (hk : a.Dialled) (hi : i.met? = some (id, u)) :
    (a.after i).Exact ↔
      (∀ d, a.member.directory = some d → a.member.peers.displaced? id u ≠ some d) ∧
        (i.opened? ≠ some id → id ∈ a.opened → id ∈ a.live) := by
  have hself : (⟨a.member.directory, a.member.peers.insert id u⟩ : Links).Holds id :=
    .inr (PeerTable.mem_ids_insert.2 (.inl rfl))
  have hkept : id ∉ (a.member.peers.displaced? id u).toList := fun hmem =>
    PeerTable.displaced?_ne (Option.mem_toList.1 hmem) rfl
  have hopened (j : ConnectionId) (hj : i.opened? = some j) : j = id := by
    rcases opened?_of_met? hi with ho | ⟨sender, rfl⟩
    · exact Option.some.inj (hj.symm.trans ho)
    · cases hj
  rw [exact_after_iff h (rewires_meets hi)]
  constructor
  · rintro ⟨-, hold⟩
    constructor
    · intro d hd hold'
      have hne : d ≠ id := PeerTable.displaced?_ne hold'
      have hheld := (hold d (hk d hd) fun ho => hne (hopened d ho)).1 (.inl hd)
      exact hheld.2 (Option.mem_toList.2 hold')
    · intro ho hid
      exact (h id hid).1 ((hold id hid ho).1 hself).1
  · rintro ⟨hd, hlive⟩
    constructor
    · intro j hj
      obtain rfl := hopened j hj
      exact iff_of_true hself hkept
    · intro j hj ho
      constructor
      · rintro (hdir | hmem)
        · exact ⟨.inl hdir, fun hold => hd j hdir (Option.mem_toList.1 hold)⟩
        · rcases PeerTable.mem_ids_insert.1 hmem with rfl | ⟨hmem, hne⟩
          · exact ⟨(h j hj).2 (hlive ho hj), hkept⟩
          · exact ⟨.inr hmem, fun hold => hne (Option.mem_toList.1 hold)⟩
      · rintro ⟨hdir | hmem, hne⟩
        · exact .inl hdir
        · exact .inr (PeerTable.mem_ids_insert.2 (.inr ⟨hmem, fun hold => hne (Option.mem_toList.2 hold)⟩))

/-- The connection to the directory must not be in the table. -/
theorem Exact.abandons_iff (h : a.Exact) (hk : a.Dialled) (hi : a.member.Abandons i) :
    (a.after i).Exact ↔ ∀ d, a.member.directory = some d → d ∉ a.member.peers.ids := by
  rw [exact_after_iff_of_none h (rewires_abandons hi) (opened?_of_abandons hi)]
  constructor
  · intro hx d hd hmem
    exact ((hx d (hk d hd)).1 (.inr hmem)).2 (Option.mem_toList.2 hd)
  · intro hd id _
    constructor
    · rintro (ho | hmem)
      · cases ho
      · exact ⟨.inr hmem, fun hdir => hd id (Option.mem_toList.1 hdir) hmem⟩
    · rintro ⟨hdir | hmem, hne⟩
      · exact absurd (Option.mem_toList.2 hdir) hne
      · exact .inr hmem

/-- What goes from the table must not be the connection to the directory. -/
theorem Exact.drops_iff (h : a.Exact) (hk : a.Dialled) (hi : a.member.dropped? i = some id) :
    (a.after i).Exact ↔ a.member.directory ≠ some id := by
  rw [exact_after_iff_of_none h (rewires_drops hi) (opened?_of_dropped? hi)]
  constructor
  · intro hx hd
    exact ((hx id (hk id hd)).1 (.inl hd)).2 (List.mem_singleton_self id)
  · intro hd j _
    constructor
    · rintro (hdir | hmem)
      · refine ⟨.inl hdir, fun hj => hd ?_⟩
        rw [← List.mem_singleton.1 hj]
        exact hdir
      · obtain ⟨hne, hmem⟩ := PeerTable.mem_ids_erase.1 hmem
        exact ⟨.inr hmem, fun hj => hne (List.mem_singleton.1 hj)⟩
    · rintro ⟨hdir | hmem, hne⟩
      · exact .inl hdir
      · exact .inr (PeerTable.mem_ids_erase.2 ⟨fun hj => hne (List.mem_singleton.2 hj), hmem⟩)

/-! ## Runs -/

/-- A lapse leaves the account inexact. -/
theorem Lapse.not_exact (hl : a.Lapse i) (h : a.Exact) (hk : a.Dialled) : ¬ (a.after i).Exact := by
  intro hx
  cases hl with
  | supplants hrole hd hne hout =>
    cases hroom : a.member.inRoom with
    | true => exact hout ((h.consults_iff hk (hrole.imp_right fun hr => ⟨hr, hroom⟩)).1 hx _ hd hne)
    | false =>
      rcases hrole with rfl | rfl
      · exact hout ((h.consults_iff hk (.inl rfl)).1 hx _ hd hne)
      · exact hout (((h.declines_iff hk hroom).1 hx).2 _ hd hne)
  | declines hroom hmem => exact ((h.declines_iff hk hroom).1 hx).1 hmem
  | displaces hi hd hold => exact ((h.meets_iff hk hi).1 hx).1 _ hd hold
  | revives ho hover => exact hover (((h.meets_iff hk rfl).1 hx).2 nofun ho)
  | abandons hi hd hmem => exact (h.abandons_iff hk hi).1 hx _ hd hmem
  | drops hi hd => exact (h.drops_iff hk hi).1 hx hd

/-- Nothing else does. -/
theorem Exact.after (h : a.Exact) (hk : a.Dialled) (hl : ¬ a.Lapse i) : (a.after i).Exact := by
  cases errand a.member i with
  | idle ho r => exact h.idle ho r
  | leaves => exact h.leaves
  | consults hrole =>
    refine (h.consults_iff hk hrole).2 fun d hd hne => ?_
    by_contra hout
    exact hl (.supplants (hrole.imp_right And.left) hd hne hout)
  | declines hroom =>
    refine (h.declines_iff hk hroom).2 ⟨fun hmem => hl (.declines hroom hmem), fun d hd hne => ?_⟩
    by_contra hout
    exact hl (.supplants (.inr rfl) hd hne hout)
  | meets hi =>
    refine (h.meets_iff hk hi).2 ⟨fun d hd hold => hl (.displaces hi hd hold), fun ho hid => ?_⟩
    obtain ⟨sender, rfl⟩ := (opened?_of_met? hi).resolve_left ho
    by_contra hover
    exact hl (.revives hid hover)
  | abandons hi => exact (h.abandons_iff hk hi).2 fun d hd hmem => hl (.abandons hi hd hmem)
  | drops hi => exact (h.drops_iff hk hi).2 fun hd => hl (.drops hi hd)

theorem dialled_foldl (me : Identity) (directoryAddr : SocketAddress) (is : List Input) :
    (is.foldl after (start me directoryAddr)).Dialled := by
  induction is using List.reverseRecOn with
  | nil => exact nofun
  | append_singleton is i ih =>
    rw [List.foldl_append]
    exact ih.after i

/-- **A member holds exactly the connections that are open** all along a run exactly if none of six things happens on the
way: it is never given another connection to the directory in place of one that is open, nor a connection to advertise on
that is in the table already while it is in no room; the connection to the directory is never displaced by a connection to
the same member, never lost or abandoned while it is in the table, and never dropped as the connection to somebody who is
gone; and nobody says hello on a connection that is over. -/
theorem exact_throughout_iff (me : Identity) (directoryAddr : SocketAddress) (is : List Input) :
    (∀ past rest, is = past ++ rest → (past.foldl after (start me directoryAddr)).Exact) ↔
      ∀ past i rest, is = past ++ i :: rest → ¬ (past.foldl after (start me directoryAddr)).Lapse i := by
  refine throughout_iff (fun _ => nofun) (fun past i h => ?_) is
  have hk := dialled_foldl me directoryAddr past
  exact ⟨fun hx hl => hl.not_exact h hk hx, fun hl => h.after hk hl⟩

/-- A member wins an election, gives way to another member and wins again. Each time it asks for a connection to the
directory; then both are opened, and the first is forgotten. -/
theorem forgets_directory :
    ¬ ∀ (me : Identity) (directoryAddr : SocketAddress) (is : List Input), (is.filterMap Input.opened?).Nodup →
      (is.foldl after (start me directoryAddr)).Exact := by
  intro h
  let ann : Identity := ⟨"ann", ⟨.loopback, 7001⟩⟩
  let heard (message : Message) : Input := .received 1 ⟨ann.addr, message⟩
  let is : List Input := [.join ⟨RoomKey.zeroBlock⟩, .connected 1 (.roomHost ann), heard (.ack "token"), heard .leaderVote,
    heard .leader, heard .leaderVote, .connected 2 .advertise, .connected 3 .advertise]
  let a := is.foldl after (start ⟨"bob", ⟨.loopback, 7002⟩⟩ (.v4 ⟨.loopback, 7000⟩))
  have hexact : a.Exact := h _ _ is (by decide)
  have hlive : 2 ∈ a.opened ∧ 2 ∈ a.live := by decide
  rcases (hexact 2 hlive.1).2 hlive.2 with hdirectory | htable
  · exact absurd hdirectory (by decide)
  · exact absurd htable (by decide)

end Account

end Parley.Member

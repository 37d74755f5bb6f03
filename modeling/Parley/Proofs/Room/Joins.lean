import Parley.Proofs.Room.Acquaintance

/-!
# Joins

A host is alone in its room, and any number of people join it at once. Whatever the order in which connections are opened
and messages arrive, once nothing is on its way everybody has met everybody (`joins_settle`).

Every moment on the way there (`Joining`) has its accounts of what is on its way, of who opens connections to whom and of
what the members know. One lemma for each thing that can happen keeps them.
-/

namespace Parley

variable {n : Nat}

namespace Gathering

variable {P : Party n} {host : Fin n} {s t : Gathering n} {arrived : List (Fin n)} {hailing met : List (Wire n)}
  {w w' : Wire n}

/-! ## Steps -/

/-- People are joining. -/
def Joining (P : Party n) (host : Fin n) (s : Gathering n) : Prop :=
  ∃ arrived hailing met, Post P host s arrived hailing met ∧ Plan P host s arrived ∧ Minds P host s arrived met

theorem Opening.joining (h : s.Opening P host) : Joining P host s := by
  have hguest : ∀ i, i ≠ host → (s.member i).me = P.user i ∧ (s.member i).isHost = false ∧
      (s.member i).directory = none ∧ (s.member i).peers = .empty := by
    intro i hi
    obtain ⟨addr, hj⟩ := h.guest i hi
    have hm := Except.ok.inj hj
    simp [← hm, Member.outside]
  have hpeers : ∀ i, (s.member i).peers = .empty := by
    intro i
    by_cases hi : i = host
    · rw [hi, h.peers]
    · exact (hguest i hi).2.2.2
  have hlinks : s.links.Perm ((Mesh.others host).map fun i => (i, host)) := by
    simpa [links, h.wires, Function.comp_def, Dial.pair] using h.dials.map Dial.pair
  have htells : ∀ q, ¬ s.Tells P host q := by
    rintro q ⟨w, hw, -⟩
    simp [h.wires] at hw
  refine ⟨[], [], [], ?_, ?_, ?_⟩
  · refine ⟨by simp [ends, h.wires], by simp [h.wires], by simp [h.flight], h.hungUp, ?_, ?_, ?_, ?_, ?_⟩ <;> simp
  · refine ⟨List.nodup_nil, List.not_mem_nil, ?_, fun q => ?_, fun q _ => htells q, fun d hd => ?_⟩
    · rw [hlinks.nodup_iff]
      exact (Mesh.nodup_others host).map fun i j hij => congrArg Prod.fst hij
    · obtain ⟨i, j⟩ := q
      simp [Due, later, hlinks.mem_iff, htells, eq_comm]
    · obtain ⟨i, -, rfl⟩ := List.mem_map.1 (h.dials.mem_iff.1 hd)
      exact (if_pos rfl).symm
  · refine ⟨fun i => ?_, fun i hi => ?_, fun i => ?_, ?_, by simp, by simp [h.told, Event.greetings]⟩
    · have hsorted : (s.member i).peers.byConnection.Sorted := hpeers i ▸ SortedMap.sorted_empty
      by_cases hi : i = host
      · subst hi
        exact ⟨h.me, by simp [h.isHost], fun hi => absurd rfl hi, hsorted⟩
      · obtain ⟨hme, hhost, hdirectory, -⟩ := hguest i hi
        exact ⟨hme, by simp [hhost, hi], fun _ => hdirectory, hsorted⟩
    · rcases hi with rfl | ⟨w, hw, -⟩
      · exact h.follows
      · simp [h.wires] at hw
    · simp [hpeers i, h.wires, PeerTable.empty, SortedMap.empty]
    · simp [h.ranking, Ranking.alone]

theorem calls_map_notify (i : Fin n) (news : List Event) : calls P i (news.map .notify) = [] := by
  simp [calls, List.filterMap_map]

theorem hangUps_map_notify (i : Fin n) (news : List Event) : hangUps i (news.map .notify) = [] := by
  simp [hangUps, List.filterMap_map]

/-- A connection is open that was asked for. -/
theorem Joining.connect (g : Joining P host s) {d : Dial n} {k l : ConnectionId} {before after : List (Dial n)}
    (hd : s.dials = before ++ d :: after) (hk : (d.wire k l).caller ∉ s.ends) (hl : (d.wire k l).callee ∉ s.ends) :
    Joining P host (s.connect P d k l (before ++ after)) := by
  obtain ⟨arrived, hailing, met, b, a, g⟩ := g
  have hmem : d ∈ s.dials := by simp [hd]
  have hdue : Due host arrived (d.caller, d.callee) := a.due_of_dial hmem
  have haddr := g.callee_notin a b hmem
  have hrole : d.role = .roomHost (P.user d.callee) ∨ d.role = .member (P.user d.callee) := by
    rw [a.roles d hmem, Party.role]
    split
    · rename_i h
      exact .inl (by rw [h])
    · exact .inr rfl
  obtain ⟨m, news, h, hm, hh⟩ := Member.step_connected k hrole
    (PeerTable.displaced?_eq_none fun e he ha => absurd ha (haddr e he))
  rw [(g.seat d.caller).me] at h
  have hhost : m.host = if d.callee = host then some (P.user host).addr else (s.member d.caller).host := by
    rw [hh, a.roles d hmem, Party.role]
    by_cases hc : d.callee = host <;> simp [hc]
  have hcalls : calls P d.caller (.send (.connection k) (.hello (P.user d.caller)) :: news.map .notify) = [] :=
    calls_map_notify d.caller news
  have hne : d.caller ≠ d.callee := a.ne_of_due hdue
  have hends : (s.wired (d.wire k l) (before ++ after)).ends.Nodup :=
    nodup_ends_wired b.ends hk hl fun e => hne (congrArg Terminal.member e)
  obtain ⟨-, hbox⟩ := mailbox_connect (P := P) hends hl b.placed h
  have hold : ∀ w ∈ s.wires, (s.connect P d k l (before ++ after)).mailbox w.caller = s.mailbox w.caller := fun w hw =>
    hbox _ (mem_ends_wired.2 (.inr (.inr (caller_mem_ends hw)))) fun e => hl (e ▸ caller_mem_ends hw)
  have b' : Post P host (s.connect P d k l (before ++ after)) arrived (d.wire k l :: hailing) met :=
    b.connect hk hl hne (a.ne_host_of_due hdue) h
  refine ⟨arrived, d.wire k l :: hailing, met, b', ?_, ?_⟩
  · exact a.connect hd h hcalls (b'.hails _ List.mem_cons_self).2 hold
  · exact g.connect a b hmem hk h hm hhost fun w hw => hold w (b.mem_of_met hw)

section Arrival

variable {p : Letter n} {before after : List (Letter n)} (b : Post P host s arrived hailing met)
  (a : Plan P host s arrived) (g : Minds P host s arrived met) (hf : s.flight = before ++ p :: after)
  (hb : ∀ q ∈ before, q.target ≠ p.target)
include b a g hf hb

/-- A greeting arrives at a member that is not host. -/
theorem Joining.hear (hw : w ∈ hailing) (hc : w.callee.member ≠ host) (hp : p.target = w.callee) :
    Joining P host (s.deliver P p (before ++ after)) := by
  have hbox := mailbox_target hf hb
  rw [hp, (b.hails w hw).1] at hbox
  obtain ⟨target, sender, message⟩ := p
  obtain rfl : target = w.callee := hp
  obtain rfl : .hello (P.user w.caller.member) = message := (List.cons.inj hbox).1
  obtain ⟨-, -, hdisplaced⟩ := g.table_met a b hw
  have hhost : (s.member w.callee.member).isHost = false := by
    rw [← Bool.not_eq_true, (g.seat _).isHost]
    exact hc
  obtain ⟨news, h⟩ := Member.step_hello (a := sender) hhost hdisplaced
  have hsilent := Member.outgoing_map_notify (m := { s.member w.callee.member with
    peers := (s.member w.callee.member).peers.insert w.callee.id (P.user w.caller.member) }) news
  obtain ⟨-, hother⟩ := mailbox_deliver (P := P) hf hb h hsilent
  refine ⟨arrived, hailing.erase w, w :: met, ?_, ?_, ?_⟩
  · exact b.hear hf hb hw hc rfl h hsilent (hangUps_map_notify _ news)
  · exact a.deliver hf hb h hsilent (calls_map_notify _ news) (by simp)
  · refine g.hear a b hw hc rfl h rfl fun w' hw' => hother _ ?_
    exact caller_ne_callee b.ends (b.mem_of_met hw') (b.mem_of_hailing hw)

/-- A greeting arrives at the host. -/
theorem Joining.welcome (hw : w ∈ hailing) (hc : w.callee.member = host) (hp : p.target = w.callee) :
    Joining P host (s.deliver P p (before ++ after)) := by
  have hwires := b.mem_of_hailing hw
  have hx : w.caller.member ∉ arrived := by
    intro hx
    obtain ⟨w', hw', hpair⟩ := (b.arrivals _).1 hx
    exact b.ne_of_hailing hw hw' (a.unique hwires (b.mem_of_met hw') (Prod.ext (congrArg Prod.fst hpair).symm
      (hc.trans (congrArg Prod.snd hpair).symm)))
  have hne := a.ne_host_of_due (a.due_of_wire hwires)
  have hbox := mailbox_target hf hb
  rw [hp, (b.hails w hw).1] at hbox
  obtain ⟨target, sender, message⟩ := p
  obtain rfl : target = w.callee := hp
  obtain rfl : .hello (P.user w.caller.member) = message := (List.cons.inj hbox).1
  obtain ⟨hsorted, htable, hdisplaced⟩ := g.table_met a b hw
  have hhost : (s.member w.callee.member).isHost = true := (g.seat _).isHost.2 hc
  obtain ⟨news, h, hnews⟩ := Member.step_hello_host (a := sender) hhost hdisplaced
  have hnodup : ((s.member w.callee.member).peers.insert w.callee.id (P.user w.caller.member)).ids.Nodup :=
    hsorted.imp Nat.ne_of_lt
  have hsaid : [.hello (s.member w.callee.member).me,
      .rankOrder ((s.member w.callee.member).ranking.push (P.user w.caller.member)).users,
      .ack ((s.member w.callee.member).roomToken.getD "")] =
        P.script host ((s.member host).roomToken.getD "") (arrived ++ [w.caller.member]) w.caller.member := by
    rw [Party.script_self hx, (g.seat _).me, hc, g.users_push hx hne]
  have k := b.admits (P.script host ((s.member host).roomToken.getD "") (arrived ++ [w.caller.member]) w.caller.member)
    hf hb hw hc rfl (fun w' hw' => a.ne_host_of_due (a.due_of_wire hw')) h
    (fun w' hw' hc' => g.mem_ids_met a b hw hc hw' hc') fun id => by
      rw [← hsaid, ← Member.mail_admission hnodup, Member.mail_append]
      simp [Member.mail]
  refine ⟨arrived ++ [w.caller.member], hailing.erase w, w :: met, ?_, ?_, ?_⟩
  · exact b.welcome hf hw hc rfl h (by simp [hangUps, Member.admission, List.filterMap_map]) (by rw [hc]) k
  · exact a.welcome b hx hne h (by simp [calls, Member.admission, List.filterMap_map]) (by simp [Party.script_self hx]) k
  · refine g.welcome a b hw hc rfl hx h rfl ?_ ⟨(host :: (arrived ++ [w.caller.member])).map P.user, ?_⟩ k
    · exact Event.greetings_admission _ _ _ _ hnews
    · simp [Party.script_self hx]

/-- Something that the host has said arrives, other than news of a member. -/
theorem Joining.read {m : Member} {news : List Event} (hw : w ∈ met) (hc : w.callee.member = host)
    (hp : p.target = w.caller) (hu : ∀ u, p.envelope.message ≠ .userInfo u)
    (h : (s.member p.target.member).step (.received p.target.id p.envelope) = .ok (m, news.map .notify))
    (hseat : Seat P host w.caller.member m) (hhost : m.host = (s.member w.caller.member).host)
    (hpeers : m.peers = (s.member w.caller.member).peers)
    (hrank : (∀ us, .rankOrder us ∉ mailbox { s with flight := before ++ after } w.caller) → m.ranking.users.Perm
      ((host :: sofar w.caller.member arrived ++ s.reached host w.caller.member).map P.user)) :
    Joining P host (s.deliver P p (before ++ after)) := by
  have hsilent := Member.outgoing_map_notify (m := m) news
  obtain ⟨-, hother⟩ := mailbox_deliver (P := P) hf hb h hsilent
  rw [← mailbox_input_of_silent (P := P) (s := { s with flight := before ++ after }) h hsilent] at hrank
  refine ⟨arrived, hailing, met, ?_, ?_, ?_⟩
  · exact b.read hf hb hw hc hp (a.ne_host_of_due (a.due_of_wire (b.mem_of_met hw))) h hsilent
      (hangUps_map_notify _ news)
  · exact a.deliver hf hb h hsilent (calls_map_notify _ news) hu
  · refine g.read a b hw hc hp h hseat hhost hpeers (fun w' hw' hne => hother _ ?_) hrank
    exact hp ▸ fun e => hne (eq_of_caller b.ends (b.mem_of_met hw') (b.mem_of_met hw) e)

/-- News of a later member arrives. -/
theorem Joining.ask (hw : w ∈ met) (hc : w.callee.member = host) (hp : p.target = w.caller) {j : Fin n}
    (hj : j ∈ later w.caller.member arrived) (hm : p.envelope.message = .userInfo (P.user j))
    (hlast : .userInfo (P.user j) ∉ mailbox { s with flight := before ++ after } w.caller) :
    Joining P host (s.deliver P p (before ++ after)) := by
  have hwires := b.mem_of_met hw
  have hbox := mailbox_target hf hb
  obtain ⟨target, sender, message⟩ := p
  obtain rfl : target = w.caller := hp
  obtain rfl : message = .userInfo (P.user j) := hm
  have hdue : Due host arrived (w.caller.member, j) := .inr hj
  have hhost : j ≠ host := fun e => a.absent (e ▸ (mem_of_mem_later hj).2)
  have htold : s.Tells P host (w.caller.member, j) := by
    refine ⟨w, hwires, Prod.ext rfl hc, ?_⟩
    rw [hbox]
    exact List.mem_cons_self
  have hnone : (s.member w.caller.member).peers.find? (P.user j).addr = none := by
    refine PeerTable.find?_eq_none (g.addr_notin (fun w' hw' e => ?_) fun w' hw' e => ?_)
    · exact a.apart _ (List.mem_append_left _ (e ▸ List.mem_map_of_mem hw')) htold
    · exact a.due_asymm hdue (e ▸ a.due_of_wire (b.mem_of_met hw'))
  have hme : (P.user j).addr ≠ (s.member w.caller.member).me.addr := by
    rw [(g.seat _).me]
    exact fun e => a.ne_of_due hdue (P.addr_injective e).symm
  have h : (s.member w.caller.member).step (.received w.caller.id ⟨sender, .userInfo (P.user j)⟩) = _ :=
    Member.step_userInfo hme hnone
  have hcalls : calls P w.caller.member [.notify (.messageReceived ((s.member w.caller.member).peers.get? w.caller.id)
      (.userInfo (P.user j))), .connect (.v4 (P.user j).addr) (.member (P.user j))] =
        [⟨w.caller.member, j, .member (P.user j)⟩] := by
    simp [calls, P.listener?_user]
  obtain ⟨hself, hother⟩ := mailbox_deliver (P := P) hf hb h rfl
  have hrest := (List.cons.inj (hbox.symm.trans hself)).2
  refine ⟨arrived, hailing, met, ?_, ?_, ?_⟩
  · exact b.read hf hb hw hc rfl (a.ne_host_of_due hdue) h rfl rfl
  · exact a.ask hf hb hwires hc rfl hhost rfl (hrest ▸ hlast) h rfl hcalls
  · refine g.read a b hw hc rfl h (g.seat _) rfl rfl (fun w' hw' hne => hother _ ?_) fun hr => ?_
    · exact fun e => hne (eq_of_caller b.ends (b.mem_of_met hw') hwires e)
    · refine g.ranking w hw hc fun us hus => ?_
      rw [hself] at hus
      exact hr us ((List.mem_cons.1 hus).resolve_left (by simp))

/-- The host has returned the greeting, and the ranking is still to come. -/
theorem Joining.hail (hw : w ∈ met) (hc : w.callee.member = host) (hp : p.target = w.caller)
    (hm : p.envelope.message = .hello (P.user host))
    (hrest : ∃ us, .rankOrder us ∈ mailbox { s with flight := before ++ after } w.caller) :
    Joining P host (s.deliver P p (before ++ after)) := by
  have hwires := b.mem_of_met hw
  have gs := g.seat w.caller.member
  obtain ⟨target, sender, message⟩ := p
  obtain rfl : target = w.caller := hp
  obtain rfl : message = .hello (P.user host) := hm
  -- the one entry for the host is that of the connection to it
  have haddr : ∀ e ∈ (s.member w.caller.member).peers.byConnection.entries,
      e.2.addr = (P.user host).addr → e.1 = w.caller.id := by
    intro e he ha
    rcases g.mem_table.1 he with ⟨w', hw', hend, hu⟩ | ⟨w', hw', hend, hu⟩
    · have hc' : w'.callee.member = host := P.addr_injective ((congrArg Identity.addr hu).trans ha)
      obtain rfl := a.unique hw' hwires (Prod.ext (by simp [Wire.pair, hend]) (hc'.trans hc.symm))
      exact (congrArg Terminal.id hend).symm
    · have hc' : w'.caller.member = host := P.addr_injective ((congrArg Identity.addr hu).trans ha)
      exact absurd hc' (a.ne_host_of_due (a.due_of_wire (b.mem_of_met hw')))
  have hpeers : (s.member w.caller.member).peers.insert w.caller.id (P.user host) = (s.member w.caller.member).peers :=
    PeerTable.insert_of_mem gs.sorted (g.mem_table.2 (.inl ⟨w, hwires, rfl, congrArg P.user hc⟩)) haddr
  have hsorted : ((s.member w.caller.member).peers.insert w.caller.id (P.user host)).byConnection.Sorted := by
    rw [hpeers]
    exact gs.sorted
  have hhost : (s.member w.caller.member).isHost = false := by
    rw [← Bool.not_eq_true, gs.isHost]
    exact a.ne_host_of_due (a.due_of_wire hwires)
  obtain ⟨news, h⟩ := Member.step_hello (a := sender) hhost (PeerTable.displaced?_eq_none haddr)
  refine Joining.read b a g hf hb hw hc rfl (by simp) h { gs with sorted := hsorted } rfl hpeers fun hr => ?_
  obtain ⟨us, hus⟩ := hrest
  exact absurd hus (hr us)

/-- The ranking arrives, with all news of later members still to come. -/
theorem Joining.rank (hw : w ∈ met) (hc : w.callee.member = host) (hp : p.target = w.caller)
    (hm : p.envelope.message = .rankOrder ((host :: sofar w.caller.member arrived).map P.user))
    (hrest : ∀ j ∈ later w.caller.member arrived,
      .userInfo (P.user j) ∈ mailbox { s with flight := before ++ after } w.caller) :
    Joining P host (s.deliver P p (before ++ after)) := by
  have hwires := b.mem_of_met hw
  have gs := g.seat w.caller.member
  have hbox := mailbox_target hf hb
  obtain ⟨target, sender, message⟩ := p
  obtain rfl : target = w.caller := hp
  obtain rfl : message = .rankOrder ((host :: sofar w.caller.member arrived).map P.user) := hm
  have hreached : s.reached host w.caller.member = [] := by
    rw [reached, List.map_eq_nil_iff, List.filter_eq_nil_iff]
    intro w' hw' hp
    obtain ⟨hcaller, hcallee⟩ := of_decide_eq_true hp
    have hlater : w'.callee.member ∈ later w'.caller.member arrived :=
      (a.due_of_wire hw').resolve_left fun h => hcallee h.2
    have htold : s.Tells P host w'.pair := by
      refine ⟨w, hwires, Prod.ext hcaller.symm hc, ?_⟩
      rw [hbox]
      exact List.mem_cons_of_mem _ (hrest _ (hcaller ▸ hlater))
    exact a.apart _ (List.mem_append_left _ (List.mem_map_of_mem hw')) htold
  have hnodup : (((host :: sofar w.caller.member arrived).map P.user).map Identity.addr).Nodup := by
    rw [List.map_map]
    refine List.Nodup.map P.addr_injective (List.nodup_cons.2 ⟨fun hmem => a.absent ?_, (a.nodup_split _).1⟩)
    rw [← sofar_append_later w.caller.member arrived]
    exact List.mem_append_left _ hmem
  have hme : (s.member w.caller.member).me ∈ (host :: sofar w.caller.member arrived).map P.user := by
    rw [gs.me]
    exact List.mem_map_of_mem (List.mem_cons_of_mem _ (mem_sofar ((b.arrivals _).2 ⟨w, hw, Prod.ext rfl hc⟩)))
  have h := (s.member w.caller.member).step_rankOrder w.caller.id sender
    ((host :: sofar w.caller.member arrived).map P.user)
  refine Joining.read b a g hf hb hw hc rfl (by simp) h { gs with } rfl rfl fun _ => ?_
  rw [Ranking.users_replace hnodup hme, hreached, List.append_nil]

/-- The token arrives. -/
theorem Joining.note (hw : w ∈ met) (hc : w.callee.member = host) (hp : p.target = w.caller) {info : String}
    (hm : p.envelope.message = .ack info) : Joining P host (s.deliver P p (before ++ after)) := by
  have gs := g.seat w.caller.member
  have hbox := mailbox_target hf hb
  obtain ⟨target, sender, message⟩ := p
  obtain rfl : target = w.caller := hp
  obtain rfl : message = .ack info := hm
  have hhost := a.ne_host_of_due (a.due_of_wire (b.mem_of_met hw))
  obtain ⟨token, h⟩ := Member.step_ack (gs.directory hhost) w.caller.id sender info
  refine Joining.read b a g hf hb hw hc rfl (by simp) h { gs with } rfl rfl fun hr => ?_
  refine g.ranking w hw hc fun us hus => ?_
  rw [hbox] at hus
  exact hr us ((List.mem_cons.1 hus).resolve_left (by simp))

/-- Whatever arrives of what the host has said. -/
theorem Joining.heed (hw : w ∈ met) (hc : w.callee.member = host) (hp : p.target = w.caller) :
    Joining P host (s.deliver P p (before ++ after)) := by
  have hbox := mailbox_target hf hb
  have hscript := b.script w hw hc
  rw [hp] at hbox
  rw [hbox, Party.script, List.suffix_cons_iff, List.suffix_cons_iff, List.suffix_cons_iff] at hscript
  rcases hscript with hm | hm | hm | hm
  · obtain ⟨hm, hrest⟩ := List.cons.inj hm
    exact Joining.hail b a g hf hb hw hc hp hm ⟨_, hrest ▸ List.mem_cons_self⟩
  · obtain ⟨hm, hrest⟩ := List.cons.inj hm
    refine Joining.rank b a g hf hb hw hc hp hm fun j hj => ?_
    rw [hrest]
    exact List.mem_cons_of_mem _ (List.mem_map_of_mem hj)
  · exact Joining.note b a g hf hb hw hc hp (List.cons.inj hm).1
  · -- news of a later member, which the host has told once
    obtain ⟨pre, hpre⟩ := hm
    have hmem : p.envelope.message ∈ (later w.caller.member arrived).map fun j => Message.userInfo (P.user j) := by
      rw [← hpre]
      exact List.mem_append_right _ List.mem_cons_self
    obtain ⟨j, hj, hm⟩ := List.mem_map.1 hmem
    refine Joining.ask b a g hf hb hw hc hp hj hm.symm ?_
    have hnodup : ((later w.caller.member arrived).map fun j => Message.userInfo (P.user j)).Nodup :=
      (a.nodup_split _).2.1.map fun i j hij => P.user_injective (Message.userInfo.inj hij)
    rw [← hpre, ← hm] at hnodup
    exact (List.nodup_cons.1 (List.nodup_append.1 hnodup).2.1).1

/-- A message arrives. -/
theorem Joining.deliver : Joining P host (s.deliver P p (before ++ after)) := by
  have hbox := mailbox_target hf hb
  obtain ⟨w, hw, hend⟩ := mem_ends.1 (b.placed p (by simp [hf]))
  rcases hend with hp | hp
  · rcases List.mem_append.1 (b.wires.mem_iff.1 hw) with hw | hw
    · rw [← hp, (b.hails w hw).2] at hbox
      cases hbox
    · by_cases hc : w.callee.member = host
      · exact Joining.heed b a g hf hb hw hc hp.symm
      · rw [← hp, b.side w hw hc] at hbox
        cases hbox
  · rcases List.mem_append.1 (b.wires.mem_iff.1 hw) with hw | hw
    · by_cases hc : w.callee.member = host
      · exact Joining.welcome b a g hf hb hw hc hp.symm
      · exact Joining.hear b a g hf hb hw hc hp.symm
    · rw [← hp, b.heard w hw] at hbox
      cases hbox

end Arrival

theorem Joining.step (g : Joining P host s) (h : Step P s t) : Joining P host t := by
  cases h with
  | connect d k l before after hd hk hl => exact g.connect hd hk hl
  | deliver p before after hf hb =>
    obtain ⟨arrived, hailing, met, b, a, g⟩ := g
    exact Joining.deliver b a g hf hb
  | close e e' he =>
    obtain ⟨arrived, hailing, met, b, -, -⟩ := g
    simp [b.hungUp] at he

theorem Opening.joining_of_run {s₀ : Gathering n} (h₀ : s₀.Opening P host) (h : Relation.ReflTransGen (Step P) s₀ s) :
    Joining P host s := by
  induction h with
  | refl => exact h₀.joining
  | tail _ hs ih => exact ih.step hs

/-! ## The end -/

/-- The members that member `i` has a connection to: those to whom it has opened one, and those that have opened one
to it. -/
def company (s : Gathering n) (i : Fin n) : List (Fin n) :=
  (s.wires.map Wire.pair).filterMap (fun q => if q.1 = i then some q.2 else none) ++
    (s.wires.map Wire.pair).filterMap fun q => if q.2 = i then some q.1 else none

theorem mem_company {i j : Fin n} :
    j ∈ s.company i ↔ (∃ w ∈ s.wires, w.pair = (i, j)) ∨ ∃ w ∈ s.wires, w.pair = (j, i) := by
  rw [company, List.mem_append, List.filterMap_map, List.filterMap_map, List.mem_filterMap, List.mem_filterMap]
  simp only [Function.comp_apply, Option.ite_none_right_eq_some, Option.some.injEq, Prod.ext_iff, and_comm]

section Settled

variable (b : Post P host s arrived hailing met) (a : Plan P host s arrived) (g : Minds P host s arrived met)
  (hq : s.Quiet)

theorem mailbox_of_quiet (hq : s.Quiet) (e : Terminal n) : s.mailbox e = [] := mailbox_eq_nil (by simp [hq.1])

include b hq in
theorem Post.hailing_eq_nil : hailing = [] := by
  refine List.eq_nil_iff_forall_not_mem.2 fun w hw => ?_
  have h := (b.hails w hw).1
  rw [mailbox_of_quiet hq] at h
  cases h

include b hq in
theorem Post.met_perm : s.wires.Perm met := by
  have h := b.wires
  rwa [b.hailing_eq_nil hq, List.nil_append] at h

include a hq in
/-- Every connection that is due is open. -/
theorem Plan.due_iff {i j : Fin n} : Due host arrived (i, j) ↔ ∃ w ∈ s.wires, w.pair = (i, j) := by
  have htells : ¬ s.Tells P host (i, j) := by
    rintro ⟨w, -, -, hm⟩
    simp [mailbox_of_quiet hq] at hm
  rw [a.due, or_iff_left htells, links, hq.2, List.map_nil, List.append_nil, List.mem_map]

include b a hq in
theorem Post.mem_arrived {i : Fin n} : i ∈ arrived ↔ i ≠ host := by
  refine ⟨fun hi e => a.absent (e ▸ hi), fun hi => ?_⟩
  obtain ⟨w, hw, hpair⟩ := (a.due_iff hq).1 (.inl ⟨hi, rfl⟩ : Due host arrived (i, host))
  exact (b.arrivals i).2 ⟨w, (b.met_perm hq).mem_iff.1 hw, hpair⟩

include b a hq in
/-- Of two members one has opened a connection to the other. -/
theorem Post.due_total {i j : Fin n} (hij : i ≠ j) : Due host arrived (i, j) ∨ Due host arrived (j, i) := by
  by_cases hi : i = host
  · exact .inr (.inl ⟨fun h => hij (hi.trans h.symm), hi⟩)
  · by_cases hj : j = host
    · exact .inl (.inl ⟨hi, hj⟩)
    · exact (later_total ((b.mem_arrived a hq).2 hi) ((b.mem_arrived a hq).2 hj) hij).imp .inr .inr

include b a hq in
theorem Post.perm_members : (host :: arrived).Perm (List.finRange n) := by
  rw [List.perm_ext_iff_of_nodup (List.nodup_cons.2 ⟨a.absent, a.nodup⟩) (List.nodup_finRange n)]
  intro i
  simp [b.mem_arrived a hq, em]

include b a hq in
theorem Post.perm_company (i : Fin n) : (s.company i).Perm (Mesh.others i) := by
  have hpairs : (s.wires.map Wire.pair).Nodup := (List.nodup_append.1 a.once).1
  have hnodup : (s.company i).Nodup := by
    refine List.nodup_append.2 ⟨hpairs.filterMap ?_, hpairs.filterMap ?_, ?_⟩
    · rintro ⟨k, l⟩ ⟨k', l'⟩ j hj hj'
      simp only [Option.mem_def, Option.ite_none_right_eq_some, Option.some.injEq] at hj hj'
      exact Prod.ext (hj.1.trans hj'.1.symm) (hj.2.trans hj'.2.symm)
    · rintro ⟨k, l⟩ ⟨k', l'⟩ j hj hj'
      simp only [Option.mem_def, Option.ite_none_right_eq_some, Option.some.injEq] at hj hj'
      exact Prod.ext (hj.2.trans hj'.2.symm) (hj.1.trans hj'.1.symm)
    · rintro j hj _ hj' rfl
      simp only [List.mem_filterMap, Option.ite_none_right_eq_some, Option.some.injEq] at hj hj'
      obtain ⟨⟨k, l⟩, hq, rfl, rfl⟩ := hj
      obtain ⟨⟨k', l'⟩, hq', rfl, rfl⟩ := hj'
      exact a.due_asymm ((a.due _).2 (.inl (List.mem_append_left _ hq)))
        ((a.due _).2 (.inl (List.mem_append_left _ hq')))
  rw [List.perm_ext_iff_of_nodup hnodup (Mesh.nodup_others i)]
  intro j
  rw [mem_company, ← a.due_iff hq, ← a.due_iff hq, Mesh.mem_others]
  refine ⟨fun h => ?_, fun h => b.due_total a hq (Ne.symm h)⟩
  rcases h with h | h
  · exact Ne.symm (a.ne_of_due h)
  · exact a.ne_of_due h

include b g hq in
theorem Minds.perm_users (i : Fin n) : (s.member i).peers.users.Perm ((s.company i).map P.user) := by
  have h := ((g.table i).trans (((b.met_perm hq).symm.filterMap _).append_left _)).map Prod.snd
  refine h.trans (List.Perm.of_eq ?_)
  rw [company, List.map_append, List.map_append, List.map_filterMap, List.map_filterMap, List.filterMap_map,
    List.filterMap_map, List.map_filterMap, List.map_filterMap]
  congr 1
  · refine List.filterMap_congr fun w _ => ?_
    by_cases hi : w.caller.member = i <;> simp [Wire.near?, Wire.pair, hi]
  · refine List.filterMap_congr fun w _ => ?_
    by_cases hi : w.callee.member = i <;> simp [Wire.back?, Wire.pair, hi]

include a hq in
theorem Plan.perm_reached {i : Fin n} (hi : i ≠ host) : (s.reached host i).Perm (later i arrived) := by
  have hwires : s.wires.Nodup := List.Nodup.of_map _ (List.nodup_append.1 a.once).1
  have hnodup : (s.reached host i).Nodup := by
    refine List.Nodup.map_on ?_ (hwires.filter _)
    intro w hw w' hw' hj
    obtain ⟨hw, hp⟩ := List.mem_filter.1 hw
    obtain ⟨hw', hp'⟩ := List.mem_filter.1 hw'
    exact a.unique hw hw' (Prod.ext ((of_decide_eq_true hp).1.trans (of_decide_eq_true hp').1.symm) hj)
  rw [List.perm_ext_iff_of_nodup hnodup (a.nodup_split i).2.1]
  intro j
  constructor
  · intro hj
    obtain ⟨w, hw, rfl⟩ := List.mem_map.1 hj
    obtain ⟨hmem, hp⟩ := List.mem_filter.1 hw
    obtain ⟨rfl, hc⟩ := of_decide_eq_true hp
    exact (a.due_of_wire hmem).resolve_left fun h => hc h.2
  · intro hj
    obtain ⟨w, hw, hpair⟩ := (a.due_iff hq).1 (.inr hj : Due host arrived (i, j))
    obtain ⟨rfl, rfl⟩ := Prod.mk.inj hpair
    have hc : w.callee.member ≠ host := fun e => a.absent (e ▸ (mem_of_mem_later hj).2)
    exact List.mem_map_of_mem (List.mem_filter.2 ⟨hw, by simpa using hc⟩)

include b a g hq in
theorem Minds.perm_ranking (i : Fin n) : (s.member i).ranking.users.Perm ((List.finRange n).map P.user) := by
  refine List.Perm.trans ?_ ((b.perm_members a hq).map P.user)
  by_cases hi : i = host
  · rw [hi, g.order]
  · obtain ⟨w, hw, hpair⟩ := (b.arrivals i).1 ((b.mem_arrived a hq).2 hi)
    obtain ⟨rfl, hc⟩ := Prod.mk.inj hpair
    have hread : ∀ us, .rankOrder us ∉ s.mailbox w.caller := by simp [mailbox_of_quiet hq]
    refine (g.ranking w hw hc hread).trans (List.Perm.map _ (List.Perm.cons _ ?_))
    have happ := sofar_append_later w.caller.member arrived
    exact ((a.perm_reached hq hi).append_left _).trans (List.Perm.of_eq happ)

include b g hq in
theorem Minds.paired {i j : Fin n} {id : ConnectionId} (h : (s.member i).peers.get? id = some (P.user j)) :
    ∃ id', (s.member j).peers.get? id' = some (P.user i) ∧ s.far? ⟨i, id⟩ = some ⟨j, id'⟩ := by
  obtain ⟨e, he, hu⟩ := Option.map_eq_some_iff.1 h
  have hid : e.1 = id := by simpa using List.find?_some he
  have hget {k : Fin n} {e : ConnectionId × Identity} (he : e ∈ (s.member k).peers.byConnection.entries) :
      (s.member k).peers.get? e.1 = some e.2 := SortedMap.get?_of_mem (g.seat k).sorted he
  rcases g.mem_table.1 (List.mem_of_find?_eq_some he) with ⟨w, hw, hend, hw'⟩ | ⟨w, hw, hend, hw'⟩
  · obtain rfl : w.callee.member = j := P.user_injective (hw'.trans hu)
    have hback : (w.callee.id, P.user i) ∈ (s.member w.callee.member).peers.byConnection.entries :=
      g.mem_table.2 (.inr ⟨w, (b.met_perm hq).mem_iff.1 hw, rfl, by rw [hend]⟩)
    refine ⟨w.callee.id, hget hback, ?_⟩
    rw [← hid, ← hend]
    exact far?_caller b.ends hw
  · obtain rfl : w.caller.member = j := P.user_injective (hw'.trans hu)
    have hnear : (w.caller.id, P.user i) ∈ (s.member w.caller.member).peers.byConnection.entries :=
      g.mem_table.2 (.inl ⟨w, b.mem_of_met hw, rfl, by rw [hend]⟩)
    refine ⟨w.caller.id, hget hnear, ?_⟩
    rw [← hid, ← hend]
    exact far?_callee b.ends (b.mem_of_met hw)

end Settled

theorem Joining.settled (g : Joining P host s) (hq : s.Quiet) : s.Settled P host := by
  obtain ⟨arrived, hailing, met, b, a, g⟩ := g
  refine ⟨fun i => ?_, fun i j id h => g.paired b hq h, fun i => ?_, ?_, fun i => ?_, fun i => (g.seat i).isHost, b.hungUp⟩
  · exact (g.perm_users b hq i).trans ((b.perm_company a hq i).map _)
  · have h := (g.perm_ranking b a hq i).map Identity.addr
    rwa [List.map_map] at h
  · rw [g.order, g.greeted, List.map_cons]
  · by_cases hi : i = host
    · exact g.follows i (.inl hi)
    · obtain ⟨w, hw, hpair⟩ := (b.arrivals i).1 ((b.mem_arrived a hq).2 hi)
      exact g.follows i (.inr ⟨w, b.mem_of_met hw, hpair⟩)

end Gathering

/-- **Joins settle.** However the joins of any number of people interleave, once no message is on its way and no connection
is still to be opened, everybody has met everybody. -/
theorem joins_settle {P : Party n} {host : Fin n} {s₀ s : Gathering n} (h₀ : s₀.Opening P host)
    (h : Relation.ReflTransGen (Gathering.Step P) s₀ s) (hq : s.Quiet) : s.Settled P host :=
  (h₀.joining_of_run h).settled hq

/-- The first of three people hosts the room, and the others join it. -/
def Party.trio : Party 3 where
  key := Mesh.trio.key
  user := Mesh.trio.user
  addr_injective := Mesh.trio.addr_injective

namespace Gathering

/-- A room that nobody has come to yet. -/
def fresh (P : Party n) (host : Fin n) : Gathering n where
  member i := { Member.outside (P.user i) (.v4 ⟨.loopback, 7000⟩) with
    key := some P.key
    isHost := i = host
    host := if i = host then some (P.user host).addr else none }
  told _ := []
  wires := []
  dials := (Mesh.others host).map fun i => ⟨i, host, .roomHost (P.user host)⟩
  flight := []
  hungUp := []

theorem opening_fresh (P : Party n) (host : Fin n) : (fresh P host).Opening P host where
  me := rfl
  key := rfl
  isHost := by simp [fresh]
  follows := by simp [fresh]
  peers := rfl
  ranking := rfl
  guest i hi := ⟨.v4 ⟨.loopback, 7000⟩, by simp [fresh, Member.beginJoin, Member.inRoom, Member.outside, hi]⟩
  told _ := rfl
  wires := rfl
  dials := List.Perm.refl _
  flight := rfl
  hungUp := rfl

end Gathering

/-- Two people join. The second one is admitted first, and greets the other one before that knows the ranking. -/
theorem joins_settle_overtaken : ∃ s, Relation.ReflTransGen (Gathering.Step .trio) (.fresh .trio 0) s ∧ s.Quiet ∧
    s.Settled .trio 0 ∧ (s.member 0).ranking.users = [0, 2, 1].map Party.trio.user := by
  let u := Party.trio.user
  let line (j : Fin 3) (k : ConnectionId) (i : Fin 3) (message : Message) : Letter 3 := ⟨⟨j, k⟩, ⟨(u i).addr, message⟩⟩
  let h₁ := line 0 1 1 (.hello (u 1))
  let h₂ := line 0 2 2 (.hello (u 2))
  let r₁ := line 1 1 0 (.rankOrder ([0, 2, 1].map u))
  let r₂ := line 2 1 0 (.rankOrder ([0, 2].map u))
  have run := Relation.ReflTransGen.refl (r := Gathering.Step Party.trio) (a := .fresh .trio 0)
    |>.tail (.connect _ ⟨1, 0, .roomHost (u 0)⟩ 1 1 [] [⟨2, 0, .roomHost (u 0)⟩] rfl (by decide) (by decide))
    |>.tail (.connect _ ⟨2, 0, .roomHost (u 0)⟩ 1 2 [] [] rfl (by decide) (by decide))
    |>.tail (.deliver _ h₂ [h₁] [] rfl (by decide))
    |>.tail (.deliver _ h₁ [] [line 2 1 0 (.hello (u 0)), r₂, line 2 1 0 (.ack "")] rfl (by decide))
    |>.tail (.deliver _ (line 2 1 0 (.hello (u 0))) [] [r₂, line 2 1 0 (.ack ""), line 2 1 0 (.userInfo (u 1)),
      line 1 1 0 (.hello (u 0)), r₁, line 1 1 0 (.ack "")] rfl (by decide))
    |>.tail (.deliver _ r₂ [] [line 2 1 0 (.ack ""), line 2 1 0 (.userInfo (u 1)), line 1 1 0 (.hello (u 0)), r₁,
      line 1 1 0 (.ack "")] rfl (by decide))
    |>.tail (.deliver _ (line 2 1 0 (.ack "")) [] [line 2 1 0 (.userInfo (u 1)), line 1 1 0 (.hello (u 0)), r₁,
      line 1 1 0 (.ack "")] rfl (by decide))
    |>.tail (.deliver _ (line 2 1 0 (.userInfo (u 1))) [] [line 1 1 0 (.hello (u 0)), r₁, line 1 1 0 (.ack "")]
      rfl (by decide))
    |>.tail (.connect _ ⟨2, 1, .member (u 1)⟩ 2 2 [] [] rfl (by decide) (by decide))
    |>.tail (.deliver _ (line 1 2 2 (.hello (u 2))) [line 1 1 0 (.hello (u 0)), r₁, line 1 1 0 (.ack "")] []
      rfl (by decide))
    |>.tail (.deliver _ (line 1 1 0 (.hello (u 0))) [] [r₁, line 1 1 0 (.ack "")] rfl (by decide))
    |>.tail (.deliver _ r₁ [] [line 1 1 0 (.ack "")] rfl (by decide))
    |>.tail (.deliver _ (line 1 1 0 (.ack "")) [] [] rfl (by decide))
  exact ⟨_, run, by decide, joins_settle (Gathering.opening_fresh .trio 0) run (by decide), by decide⟩

end Parley

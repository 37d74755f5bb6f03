import Parley.Proofs.Ranking
import Parley.Proofs.Room.Newcomers

/-!
# What the members of a gathering know

While people join, every moment has its account of what the members know (`Minds`): a table leads to those to whom the
member has opened a connection and to those whose greetings have arrived, the ranking that a newcomer has from the host
grows by those to whom it opens connections, and the host has been greeted by those it ranks. Whatever happens keeps the
account: the host's words arrive (`Minds.read`), a greeting does (`Minds.hear`, `Minds.welcome`), or a connection is open
(`Minds.connect`).
-/

namespace Parley

variable {n : Nat}

/-! ## Rankings -/

namespace Ranking

/-- A list that names everybody once is taken over as it is. -/
theorem foldl_distinct {seen us : List Identity} (h : ((seen ++ us).map Identity.addr).Nodup) :
    us.foldl (fun seen u => if seen.any (Identity.same u) then seen else seen ++ [u]) seen = seen ++ us := by
  induction us generalizing seen with
  | nil => simp
  | cons u us ih =>
    have hu : seen.any (Identity.same u) = false := by
      rw [List.map_append, List.map_cons, List.nodup_append] at h
      rw [List.any_eq_false]
      intro v hv hs
      exact h.2.2 v.addr (List.mem_map_of_mem hv) u.addr List.mem_cons_self (of_decide_eq_true hs).symm
    rw [List.foldl_cons, hu, if_neg Bool.false_ne_true, ih (by simpa using h), List.append_assoc, List.singleton_append]

theorem users_replace {r : Ranking} {us : List Identity} {me : Identity} (h : (us.map Identity.addr).Nodup) (hm : me ∈ us) :
    (r.replace us me).users = us := by
  have hd : us.foldl (fun seen u => if seen.any (Identity.same u) then seen else seen ++ [u]) [] = us :=
    foldl_distinct (by simpa using h)
  have hs : us.any (Identity.same me) = true := List.any_eq_true.2 ⟨me, hm, by simp [Identity.same]⟩
  show distinct (us ++ [me]) = us
  rw [distinct, List.foldl_append, hd, List.foldl_cons, hs, if_pos rfl, List.foldl_nil]

end Ranking

/-! ## Greetings -/

namespace Event

@[simp] theorem greetings_append (es fs : List Event) : greetings (es ++ fs) = greetings es ++ greetings fs := by
  simp [greetings]

theorem greetings_eq_nil {u : Identity} {news : List Event} (h : ∀ e ∈ news, e = .peerJoined u) : greetings news = [] := by
  rw [greetings, List.filterMap_eq_nil_iff]
  intro e he
  rw [h e he]

/-- A host that admits a member has been greeted by it. -/
theorem greetings_admission (m : Member) (id : ConnectionId) (sender : Option Identity) (u : Identity)
    {news : List Event} (h : ∀ e ∈ news, e = .peerJoined u) :
    greetings (Effect.events (.notify (.messageReceived sender (.hello u)) :: news.map .notify ++ m.admission id u)) =
      [u] := by
  have he : Effect.events (.notify (.messageReceived sender (.hello u)) :: news.map .notify ++ m.admission id u) =
      .messageReceived sender (.hello u) :: news := by
    simp [Effect.events, Member.admission, List.filterMap_map]
  rw [he, ← List.singleton_append, greetings_append, greetings_eq_nil h]
  rfl

end Event

/-! ## What the members know -/

/-- The entry of the connection in the table of member `i`, if that has opened it. -/
def Wire.near? (P : Party n) (i : Fin n) (w : Wire n) : Option (ConnectionId × Identity) :=
  if w.caller.member = i then some (w.caller.id, P.user w.callee.member) else none

/-- The entry of the connection in the table of member `i`, if that has accepted it. -/
def Wire.back? (P : Party n) (i : Fin n) (w : Wire n) : Option (ConnectionId × Identity) :=
  if w.callee.member = i then some (w.callee.id, P.user w.caller.member) else none

namespace Gathering

/-- A member that knows who it is and whether it is host, and has left the directory unless it is. -/
structure Seat (P : Party n) (host i : Fin n) (m : Member) : Prop where
  me : m.me = P.user i
  isHost : m.isHost = true ↔ i = host
  directory : i ≠ host → m.directory = none
  sorted : m.peers.byConnection.Sorted

/-- What the members know. A newcomer that has the ranking from the host ranks whom it lists, and then those that it has
opened connections to. -/
structure Minds (P : Party n) (host : Fin n) (s : Gathering n) (arrived : List (Fin n)) (met : List (Wire n)) : Prop where
  seat : ∀ i, Seat P host i (s.member i)
  follows : ∀ i, (i = host ∨ ∃ w ∈ s.wires, w.pair = (i, host)) → (s.member i).host = some (P.user host).addr
  table : ∀ i, (s.member i).peers.byConnection.entries.Perm
    (s.wires.filterMap (Wire.near? P i) ++ met.filterMap (Wire.back? P i))
  order : (s.member host).ranking.users = (host :: arrived).map P.user
  ranking : ∀ w ∈ met, w.callee.member = host → (∀ us, .rankOrder us ∉ s.mailbox w.caller) →
    (s.member w.caller.member).ranking.users.Perm
      ((host :: sofar w.caller.member arrived ++ s.reached host w.caller.member).map P.user)
  greeted : Event.greetings (s.told host) = arrived.map P.user

variable {P : Party n} {host : Fin n} {s t : Gathering n} {arrived : List (Fin n)} {hailing met : List (Wire n)}
  {w w' : Wire n}

/-! ## Looking up in a table -/

theorem near?_eq_some {i : Fin n} {e : ConnectionId × Identity} :
    w.near? P i = some e ↔ w.caller = ⟨i, e.1⟩ ∧ P.user w.callee.member = e.2 := by
  obtain ⟨⟨j, k⟩, c⟩ := w
  obtain ⟨id, u⟩ := e
  by_cases h : j = i <;> simp [Wire.near?, h]

theorem back?_eq_some {i : Fin n} {e : ConnectionId × Identity} :
    w.back? P i = some e ↔ w.callee = ⟨i, e.1⟩ ∧ P.user w.caller.member = e.2 := by
  obtain ⟨c, ⟨j, k⟩⟩ := w
  obtain ⟨id, u⟩ := e
  by_cases h : j = i <;> simp [Wire.back?, h]

namespace Minds

theorem mem_table (g : Minds P host s arrived met) {i : Fin n} {e : ConnectionId × Identity} :
    e ∈ (s.member i).peers.byConnection.entries ↔
      (∃ w ∈ s.wires, w.caller = ⟨i, e.1⟩ ∧ P.user w.callee.member = e.2) ∨
        ∃ w ∈ met, w.callee = ⟨i, e.1⟩ ∧ P.user w.caller.member = e.2 := by
  rw [(g.table i).mem_iff, List.mem_append, List.mem_filterMap, List.mem_filterMap]
  simp only [near?_eq_some, back?_eq_some]

/-- A number that no connection of the table has. -/
theorem id_notin (g : Minds P host s arrived met) {i : Fin n} {k : ConnectionId} (hn : ∀ w ∈ s.wires, w.caller ≠ ⟨i, k⟩)
    (hb : ∀ w ∈ met, w.callee ≠ ⟨i, k⟩) : k ∉ (s.member i).peers.ids := by
  intro hk
  obtain ⟨e, he, rfl⟩ := List.mem_map.1 hk
  rcases g.mem_table.1 he with ⟨w, hw, hc, -⟩ | ⟨w, hw, hc, -⟩
  · exact hn w hw hc
  · exact hb w hw hc

/-- A member that no connection of the table leads to. -/
theorem addr_notin (g : Minds P host s arrived met) {i j : Fin n} (hn : ∀ w ∈ s.wires, w.pair ≠ (i, j))
    (hb : ∀ w ∈ met, w.pair ≠ (j, i)) :
    ∀ e ∈ (s.member i).peers.byConnection.entries, e.2.addr ≠ (P.user j).addr := by
  intro e he ha
  rcases g.mem_table.1 he with ⟨w, hw, hc, hu⟩ | ⟨w, hw, hc, hu⟩
  · have hj : w.callee.member = j := P.addr_injective ((congrArg Identity.addr hu).trans ha)
    exact hn w hw (Prod.ext (congrArg Terminal.member hc) hj)
  · have hj : w.caller.member = j := P.addr_injective ((congrArg Identity.addr hu).trans ha)
    exact hb w hw (Prod.ext hj (congrArg Terminal.member hc))

/-- Nobody asks for a connection to somebody that its table leads to. -/
theorem callee_notin (g : Minds P host s arrived met) (a : Plan P host s arrived)
    (b : Post P host s arrived hailing met) {d : Dial n} (hd : d ∈ s.dials) :
    ∀ e ∈ (s.member d.caller).peers.byConnection.entries, e.2.addr ≠ (P.user d.callee).addr :=
  g.addr_notin (fun _ hw => a.pair_ne_of_dial hd hw)
    fun _ hw e => a.due_asymm (a.due_of_dial hd) (e ▸ a.due_of_wire (b.mem_of_met hw))

/-- The others stay as they are. -/
theorem seat_turn (g : Minds P host s arrived met) {i : Fin n} (hself : Seat P host i (t.member i))
    (hother : ∀ j, j ≠ i → t.member j = s.member j) (j : Fin n) : Seat P host j (t.member j) := by
  by_cases hj : j = i
  · rw [hj]
    exact hself
  · rw [hother j hj]
    exact g.seat j

theorem follows_turn (g : Minds P host s arrived met) {i : Fin n} (hw : t.wires = s.wires)
    (hself : (t.member i).host = (s.member i).host) (hother : ∀ j, j ≠ i → t.member j = s.member j) (j : Fin n)
    (h : j = host ∨ ∃ w ∈ t.wires, w.pair = (j, host)) : (t.member j).host = some (P.user host).addr := by
  rw [hw] at h
  by_cases hj : j = i
  · rw [hj, hself]
    exact g.follows i (hj ▸ h)
  · rw [hother j hj]
    exact g.follows j h

/-- A newcomer makes something of what the host has said to it. -/
theorem read (g : Minds P host s arrived met) (a : Plan P host s arrived) (b : Post P host s arrived hailing met)
    {p : Letter n} {rest : List (Letter n)} {m : Member} {es : List Effect} (hw : w ∈ met) (hc : w.callee.member = host)
    (hp : p.target = w.caller)
    (h : (s.member p.target.member).step (.received p.target.id p.envelope) = .ok (m, es))
    (hseat : Seat P host w.caller.member m) (hhost : m.host = (s.member w.caller.member).host)
    (hpeers : m.peers = (s.member w.caller.member).peers)
    (hbox : ∀ w' ∈ met, w' ≠ w → (s.deliver P p rest).mailbox w'.caller = s.mailbox w'.caller)
    (hrank : (∀ us, .rankOrder us ∉ (s.deliver P p rest).mailbox w.caller) → m.ranking.users.Perm
      ((host :: sofar w.caller.member arrived ++ s.reached host w.caller.member).map P.user)) :
    Minds P host (s.deliver P p rest) arrived met := by
  have hself : (s.deliver P p rest).member w.caller.member = m := by
    have hm : (s.deliver P p rest).member p.target.member = m := deliver_member h
    rwa [hp] at hm
  have hother : ∀ i, i ≠ w.caller.member → (s.deliver P p rest).member i = s.member i := by
    intro i hi
    exact input_member_of_ne (hp ▸ hi)
  have hne : host ≠ w.caller.member := Ne.symm (a.ne_host_of_due (a.due_of_wire (b.mem_of_met hw)))
  refine ⟨g.seat_turn (hself ▸ hseat) hother, g.follows_turn rfl (hself ▸ hhost) hother, fun i => ?_, ?_,
    fun w' hw' hc' hr => ?_, ?_⟩
  · by_cases hi : i = w.caller.member
    · rw [hi, hself, hpeers]
      exact g.table _
    · rw [hother i hi]
      exact g.table i
  · rw [hother host hne]
    exact g.order
  · by_cases heq : w' = w
    · subst heq
      rw [hself]
      exact hrank hr
    · have hcaller : w'.caller.member ≠ w.caller.member := by
        intro e
        exact heq (a.unique (b.mem_of_met hw') (b.mem_of_met hw) (Prod.ext e (hc'.trans hc.symm)))
      rw [hbox w' hw' heq] at hr
      rw [hother _ hcaller]
      exact g.ranking w' hw' hc' hr
  · have htold : (s.deliver P p rest).told host = s.told host := input_told_of_ne (hp ▸ hne)
    rw [htold]
    exact g.greeted

/-- One more entry for the connection on which a greeting has arrived. -/
theorem table_met (g : Minds P host s arrived met) (a : Plan P host s arrived) (b : Post P host s arrived hailing met)
    (hw : w ∈ hailing) :
    ((s.member w.callee.member).peers.insert w.callee.id (P.user w.caller.member)).byConnection.Sorted ∧
      ((s.member w.callee.member).peers.insert w.callee.id (P.user w.caller.member)).byConnection.entries.Perm
        (s.wires.filterMap (Wire.near? P w.callee.member) ++ (w :: met).filterMap (Wire.back? P w.callee.member)) ∧
      (s.member w.callee.member).peers.displaced? w.callee.id (P.user w.caller.member) = none := by
  have hwires := b.mem_of_hailing hw
  have hid : w.callee.id ∉ (s.member w.callee.member).peers.ids :=
    g.id_notin (fun w' hw' => caller_ne_callee b.ends hw' hwires)
      fun w' hw' e => b.ne_of_hailing hw hw' (eq_of_callee b.ends hwires (b.mem_of_met hw') e.symm)
  have haddr : ∀ e ∈ (s.member w.callee.member).peers.byConnection.entries,
      e.2.addr ≠ (P.user w.caller.member).addr := by
    refine g.addr_notin (fun w' hw' e => ?_) fun w' hw' e => ?_
    · exact a.due_asymm (a.due_of_wire hwires) (e ▸ a.due_of_wire hw')
    · exact b.ne_of_hailing hw hw' (a.unique hwires (b.mem_of_met hw') e.symm)
  refine ⟨PeerTable.sorted_insert (g.seat _).sorted haddr, ?_,
    PeerTable.displaced?_eq_none fun e he ha => absurd ha (haddr e he)⟩
  have hback : w.back? P w.callee.member = some (w.callee.id, P.user w.caller.member) := if_pos rfl
  rw [List.filterMap_cons_some hback]
  exact (PeerTable.perm_insert hid haddr).trans (((g.table _).cons _).trans List.perm_middle.symm)

/-- The connections that newcomers have opened to the host, by their numbers in its table once the greeting has arrived. -/
theorem mem_ids_met (g : Minds P host s arrived met) (a : Plan P host s arrived) (b : Post P host s arrived hailing met)
    (hw : w ∈ hailing) (hc : w.callee.member = host) (hw' : w' ∈ s.wires) (hc' : w'.callee.member = host) :
    w'.callee.id ∈ ((s.member w.callee.member).peers.insert w.callee.id (P.user w.caller.member)).ids ↔
      w' ∈ met ∨ w' = w := by
  obtain ⟨-, htable, -⟩ := g.table_met a b hw
  have hend : w'.callee = ⟨w.callee.member, w'.callee.id⟩ := Terminal.ext (hc'.trans hc.symm) rfl
  constructor
  · intro hid
    obtain ⟨e, he, hid⟩ := List.mem_map.1 hid
    rw [htable.mem_iff, List.mem_append, List.mem_filterMap, List.mem_filterMap] at he
    rcases he with ⟨w'', hw'', he⟩ | ⟨w'', hw'', he⟩
    · have hcaller := a.ne_host_of_due (a.due_of_wire hw'')
      exact absurd ((congrArg Terminal.member (near?_eq_some.1 he).1).trans hc) hcaller
    · have heq : w'.callee = w''.callee := by rw [(back?_eq_some.1 he).1, hend, hid]
      rcases List.mem_cons.1 hw'' with rfl | hw''
      · exact .inr (eq_of_callee b.ends hw' (b.mem_of_hailing hw) heq)
      · exact .inl (eq_of_callee b.ends hw' (b.mem_of_met hw'') heq ▸ hw'')
  · intro hm
    refine List.mem_map.2 ⟨(w'.callee.id, P.user w'.caller.member), htable.mem_iff.2 ?_, rfl⟩
    refine List.mem_append_right _ (List.mem_filterMap.2 ⟨w', ?_, back?_eq_some.2 ⟨hend, rfl⟩⟩)
    exact List.mem_cons.2 hm.symm

/-- The ranking of the host with a newcomer. -/
theorem users_push (g : Minds P host s arrived met) {i : Fin n} (hi : i ∉ arrived) (hne : i ≠ host) :
    ((s.member host).ranking.push (P.user i)).users = (host :: (arrived ++ [i])).map P.user := by
  rw [Ranking.users_push, g.order]
  · simp
  · rw [g.order]
    intro v hv ha
    obtain ⟨j, hj, rfl⟩ := List.mem_map.1 hv
    obtain rfl := P.addr_injective ha
    exact (List.mem_cons.1 hj).elim hne hi

theorem filterMap_back?_of_ne {i : Fin n} (h : w.callee.member ≠ i) :
    (w :: met).filterMap (Wire.back? P i) = met.filterMap (Wire.back? P i) :=
  List.filterMap_cons_none (if_neg h)

/-- A greeting arrives at a member that is not host. -/
theorem hear (g : Minds P host s arrived met) (a : Plan P host s arrived) (b : Post P host s arrived hailing met)
    {p : Letter n} {rest : List (Letter n)} {m : Member} {es : List Effect} (hw : w ∈ hailing)
    (hc : w.callee.member ≠ host) (hp : p.target = w.callee)
    (h : (s.member p.target.member).step (.received p.target.id p.envelope) = .ok (m, es))
    (hm : m = { s.member w.callee.member with
      peers := (s.member w.callee.member).peers.insert w.callee.id (P.user w.caller.member) })
    (hbox : ∀ w' ∈ met, (s.deliver P p rest).mailbox w'.caller = s.mailbox w'.caller) :
    Minds P host (s.deliver P p rest) arrived (w :: met) := by
  have hself : (s.deliver P p rest).member w.callee.member = m := by
    have hm : (s.deliver P p rest).member p.target.member = m := deliver_member h
    rwa [hp] at hm
  have hother : ∀ i, i ≠ w.callee.member → (s.deliver P p rest).member i = s.member i := by
    intro i hi
    exact input_member_of_ne (hp ▸ hi)
  obtain ⟨hsorted, htable, -⟩ := g.table_met a b hw
  have hseat : Seat P host w.callee.member m := hm ▸ { g.seat w.callee.member with sorted := hsorted }
  have hhost : m.host = (s.member w.callee.member).host := by rw [hm]
  refine ⟨g.seat_turn (hself ▸ hseat) hother, g.follows_turn rfl (hself ▸ hhost) hother, fun i => ?_, ?_, ?_, ?_⟩
  · by_cases hi : i = w.callee.member
    · rw [hi, hself, hm]
      exact htable
    · rw [hother i hi, filterMap_back?_of_ne (Ne.symm hi)]
      exact g.table i
  · rw [hother host (Ne.symm hc)]
    exact g.order
  · refine List.forall_mem_cons.2 ⟨fun hc' => absurd hc' hc, fun w' hw' hc' hr => ?_⟩
    rw [hbox w' hw'] at hr
    have hrank : ((s.deliver P p rest).member w'.caller.member).ranking = (s.member w'.caller.member).ranking := by
      by_cases hi : w'.caller.member = w.callee.member
      · rw [hi, hself, hm]
      · rw [hother _ hi]
    rw [hrank]
    exact g.ranking w' hw' hc' hr
  · have htold : (s.deliver P p rest).told host = s.told host := input_told_of_ne (hp ▸ Ne.symm hc)
    rw [htold]
    exact g.greeted

/-- The host admits a newcomer. -/
theorem welcome (g : Minds P host s arrived met) (a : Plan P host s arrived) (b : Post P host s arrived hailing met)
    {p : Letter n} {rest : List (Letter n)} {m : Member} {es : List Effect} {said : List Message} (hw : w ∈ hailing)
    (hc : w.callee.member = host) (hp : p.target = w.callee) (hx : w.caller.member ∉ arrived)
    (h : (s.member p.target.member).step (.received p.target.id p.envelope) = .ok (m, es))
    (hm : m = { s.member w.callee.member with
      peers := (s.member w.callee.member).peers.insert w.callee.id (P.user w.caller.member)
      ranking := (s.member w.callee.member).ranking.push (P.user w.caller.member) })
    (hes : Event.greetings (Effect.events es) = [P.user w.caller.member]) (hsaid : ∃ us, .rankOrder us ∈ said)
    (k : Post.Admits P host s (s.deliver P p rest) hailing met w said) :
    Minds P host (s.deliver P p rest) (arrived ++ [w.caller.member]) (w :: met) := by
  have hself : (s.deliver P p rest).member host = m := by
    have hm : (s.deliver P p rest).member p.target.member = m := deliver_member h
    rwa [hp, hc] at hm
  have hother : ∀ i, i ≠ host → (s.deliver P p rest).member i = s.member i := by
    intro i hi
    exact input_member_of_ne (by rwa [hp, hc])
  have hne : w.caller.member ≠ host := a.ne_host_of_due (a.due_of_wire (b.mem_of_hailing hw))
  obtain ⟨hsorted, htable, -⟩ := g.table_met a b hw
  rw [hc] at hm hsorted htable
  have hseat : Seat P host host m := hm ▸ { g.seat host with sorted := hsorted }
  have hhost : m.host = (s.member host).host := by rw [hm]
  refine ⟨g.seat_turn (hself ▸ hseat) hother, g.follows_turn rfl (hself ▸ hhost) hother, fun i => ?_, ?_, ?_, ?_⟩
  · by_cases hi : i = host
    · rw [hi, hself, hm]
      exact htable
    · rw [hother i hi, filterMap_back?_of_ne (hc ▸ Ne.symm hi)]
      exact g.table i
  · rw [hself, hm]
    exact g.users_push hx hne
  · refine List.forall_mem_cons.2 ⟨fun _ hr => ?_, fun w' hw' hc' hr => ?_⟩
    · obtain ⟨us, hus⟩ := hsaid
      exact absurd (k.said ▸ hus) (hr us)
    · have harrived : w'.caller.member ∈ arrived := (b.arrivals _).2 ⟨w', hw', Prod.ext rfl hc'⟩
      have hcaller := a.ne_host_of_due (a.due_of_wire (b.mem_of_met hw'))
      rw [hother _ hcaller, sofar_append harrived]
      refine g.ranking w' hw' hc' fun us hus => hr us ?_
      rw [k.told w' hw' hc']
      exact List.mem_append_left _ hus
  · have htold : (s.deliver P p rest).told host = s.told host ++ Effect.events es := by
      have ht : (s.deliver P p rest).told p.target.member = s.told p.target.member ++ Effect.events es := deliver_told h
      rwa [hp, hc] at ht
    rw [htold, Event.greetings_append, g.greeted, hes, List.map_append, List.map_singleton]

/-- A newcomer that has the ranking from the host ranks those that it opens connections to. -/
theorem ranking_connect (a : Plan P host s arrived) (b : Post P host s arrived hailing met) {d : Dial n}
    {k l : ConnectionId} {rest : List (Dial n)} {m : Member} (hd : d ∈ s.dials) (hw : w ∈ met) (hc : w.callee.member = host)
    (hself : (s.connect P d k l rest).member d.caller = m)
    (hother : ∀ i, i ≠ d.caller → (s.connect P d k l rest).member i = s.member i)
    (hm : m.ranking = (s.member d.caller).ranking.push (P.user d.callee))
    (hrank : (s.member w.caller.member).ranking.users.Perm
      ((host :: sofar w.caller.member arrived ++ s.reached host w.caller.member).map P.user)) :
    ((s.connect P d k l rest).member w.caller.member).ranking.users.Perm ((host :: sofar w.caller.member arrived ++
      (s.connect P d k l rest).reached host w.caller.member).map P.user) := by
  have hwires : (s.connect P d k l rest).wires = s.wires ++ [d.wire k l] := rfl
  by_cases hi : w.caller.member = d.caller
  · -- the newcomer has a connection to the host, so this one is to a later member
    have hcallee : d.callee ≠ host := fun e =>
      a.pair_ne_of_dial hd (b.mem_of_met hw) (Prod.ext hi (hc.trans e.symm))
    have hreached : (s.connect P d k l rest).reached host d.caller = s.reached host d.caller ++ [d.callee] := by
      simp [reached, hwires, Dial.wire, hcallee]
    rw [hi] at hrank ⊢
    rw [hself, hm, hreached, ← List.append_assoc, List.map_append, List.map_singleton, Ranking.users_push]
    · exact hrank.append_right _
    · intro v hv ha
      obtain ⟨j, hj, rfl⟩ := List.mem_map.1 (hrank.mem_iff.1 hv)
      obtain rfl := P.addr_injective ha
      exact a.unranked hd hcallee hj
  · have hreached : (s.connect P d k l rest).reached host w.caller.member = s.reached host w.caller.member := by
      simp [reached, hwires, Dial.wire, Ne.symm hi]
    rw [hother _ hi, hreached]
    exact hrank

/-- A connection is open. -/
theorem connect (g : Minds P host s arrived met) (a : Plan P host s arrived) (b : Post P host s arrived hailing met)
    {d : Dial n} {k l : ConnectionId} {rest : List (Dial n)} {m : Member} {es : List Effect} (hd : d ∈ s.dials)
    (hk : (d.wire k l).caller ∉ s.ends) (h : (s.member d.caller).step (.connected k d.role) = .ok (m, es))
    (hm : Member.Meets (s.member d.caller) m k (P.user d.callee))
    (hh : m.host = if d.callee = host then some (P.user host).addr else (s.member d.caller).host)
    (hbox : ∀ w ∈ met, (s.connect P d k l rest).mailbox w.caller = s.mailbox w.caller) :
    Minds P host (s.connect P d k l rest) arrived met := by
  have hself : (s.connect P d k l rest).member d.caller = m := input_member_self (s := s.wired (d.wire k l) rest) h
  have hother : ∀ i, i ≠ d.caller → (s.connect P d k l rest).member i = s.member i := fun i hi =>
    input_member_of_ne (s := s.wired (d.wire k l) rest) hi
  have hwires : (s.connect P d k l rest).wires = s.wires ++ [d.wire k l] := rfl
  have hne : d.caller ≠ host := a.ne_host_of_due (a.due_of_dial hd)
  have hk' : (⟨d.caller, k⟩ : Terminal n) ∉ s.ends := hk
  have hid : k ∉ (s.member d.caller).peers.ids :=
    g.id_notin (fun w hw e => hk' (e ▸ caller_mem_ends hw)) fun w hw e => hk' (e ▸ callee_mem_ends (b.mem_of_met hw))
  have haddr := g.callee_notin a b hd
  have hnear : (d.wire k l).near? P d.caller = some (k, P.user d.callee) := if_pos rfl
  have gs := g.seat d.caller
  have hseat : Seat P host d.caller m := ⟨hm.me.trans gs.me, hm.isHost ▸ gs.isHost,
    fun hi => hm.directory.trans (gs.directory hi), hm.peers ▸ PeerTable.sorted_insert gs.sorted haddr⟩
  refine ⟨g.seat_turn (hself ▸ hseat) hother, fun i hi => ?_, fun i => ?_, ?_, fun w hw hc hr => ?_, ?_⟩
  · rw [hwires] at hi
    by_cases hix : i = d.caller
    · rw [hix, hself, hh]
      split
      · rfl
      · rename_i hcallee
        refine g.follows _ (hi.imp (hix ▸ ·) ?_)
        rintro ⟨w, hw, hpair⟩
        rcases List.mem_append.1 hw with hw | hw
        · exact ⟨w, hw, hix ▸ hpair⟩
        · rw [List.mem_singleton.1 hw] at hpair
          exact absurd (congrArg Prod.snd hpair) hcallee
    · rw [hother i hix]
      refine g.follows i (hi.imp_right ?_)
      rintro ⟨w, hw, hpair⟩
      rcases List.mem_append.1 hw with hw | hw
      · exact ⟨w, hw, hpair⟩
      · rw [List.mem_singleton.1 hw] at hpair
        exact absurd (congrArg Prod.fst hpair).symm hix
  · rw [hwires, List.filterMap_append]
    by_cases hi : i = d.caller
    · rw [hi, hself, hm.peers, List.filterMap_cons_some hnear, List.filterMap_nil, List.append_assoc,
        List.singleton_append]
      exact (PeerTable.perm_insert hid haddr).trans (((g.table _).cons _).trans List.perm_middle.symm)
    · have hnone : (d.wire k l).near? P i = none := if_neg (Ne.symm hi)
      rw [hother i hi, List.filterMap_cons_none hnone, List.filterMap_nil, List.append_nil]
      exact g.table i
  · rw [hother host (Ne.symm hne)]
    exact g.order
  · rw [hbox w hw] at hr
    exact ranking_connect a b hd hw hc hself hother hm.ranking (g.ranking w hw hc hr)
  · have htold : (s.connect P d k l rest).told host = s.told host :=
      input_told_of_ne (s := s.wired (d.wire k l) rest) (Ne.symm hne)
    rw [htold]
    exact g.greeted

end Minds

end Gathering
end Parley

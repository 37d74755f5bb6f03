import Parley.Proofs.Room.Gathering

/-!
# Newcomers

The host admits the newcomers one after the other, in the order of their greetings. Each has to open a connection to the
host and to every later one, and every one of these connections is open, asked for, or yet to be told of (`Plan`). What the
host has to say to a newcomer is fixed when it is admitted, but for those that come later (`Party.script`); what is on its
way is the rest of it (`Post`).
-/

namespace Parley

variable {n : Nat}

/-! ## Orders of arrival -/

section Order

variable {α : Type} [DecidableEq α]

/-- Those that have arrived after `x`. -/
def later (x : α) : List α → List α
  | [] => []
  | y :: ys => if y = x then ys else later x ys

/-- Those that had arrived when `x` had. -/
def sofar (x : α) : List α → List α
  | [] => []
  | y :: ys => if y = x then [y] else y :: sofar x ys

variable {x y : α} {l : List α}

theorem sofar_append_later (x : α) (l : List α) : sofar x l ++ later x l = l := by
  induction l with
  | nil => rfl
  | cons y l ih => by_cases h : y = x <;> simp [sofar, later, h, ih]

theorem later_eq_nil (h : x ∉ l) : later x l = [] := by
  induction l with
  | nil => rfl
  | cons y l ih =>
    rw [List.mem_cons, not_or] at h
    rw [later, if_neg (Ne.symm h.1), ih h.2]

theorem mem_of_mem_later (h : y ∈ later x l) : x ∈ l ∧ y ∈ l := by
  refine ⟨?_, ?_⟩
  · by_contra hx
    simp [later_eq_nil hx] at h
  · rw [← sofar_append_later x l]
    exact List.mem_append_right _ h

/-- Who arrives next is later than all that have arrived. -/
theorem later_append (h : x ∈ l) (y : α) : later x (l ++ [y]) = later x l ++ [y] := by
  induction l with
  | nil => simp at h
  | cons z l ih =>
    by_cases hz : z = x
    · simp [later, hz]
    · simpa [later, hz] using ih (by simpa [Ne.symm hz] using h)

theorem sofar_append (h : x ∈ l) (y : α) : sofar x (l ++ [y]) = sofar x l := by
  induction l with
  | nil => simp at h
  | cons z l ih =>
    by_cases hz : z = x
    · simp [sofar, hz]
    · simpa [sofar, hz] using ih (by simpa [Ne.symm hz] using h)

theorem later_self (h : x ∉ l) : later x (l ++ [x]) = [] := by
  induction l with
  | nil => simp [later]
  | cons z l ih =>
    rw [List.mem_cons, not_or] at h
    simpa [later, Ne.symm h.1] using ih h.2

theorem sofar_self (h : x ∉ l) : sofar x (l ++ [x]) = l ++ [x] := by
  have happ := sofar_append_later x (l ++ [x])
  rwa [later_self h, List.append_nil] at happ

theorem mem_sofar (h : x ∈ l) : x ∈ sofar x l := by
  induction l with
  | nil => simp at h
  | cons z l ih =>
    by_cases hz : z = x
    · simp [sofar, hz]
    · simpa [sofar, hz, Ne.symm hz] using ih (by simpa [Ne.symm hz] using h)

/-- Of two that have arrived, one is later than the other. -/
theorem later_total (hx : x ∈ l) (hy : y ∈ l) (hne : x ≠ y) : y ∈ later x l ∨ x ∈ later y l := by
  induction l with
  | nil => simp at hx
  | cons z l ih =>
    by_cases hzx : z = x
    · subst hzx
      left
      simpa [later, Ne.symm hne] using hy
    · by_cases hzy : z = y
      · subst hzy
        right
        simpa [later, hne] using hx
      · simpa [later, hzx, hzy] using ih (by simpa [Ne.symm hzx] using hx) (by simpa [Ne.symm hzy] using hy)

theorem later_asymm (hn : l.Nodup) (h : y ∈ later x l) : x ∉ later y l := by
  intro h'
  induction l with
  | nil => simp [later] at h
  | cons z l ih =>
    obtain ⟨hz, hn⟩ := List.nodup_cons.1 hn
    unfold later at h h'
    split at h
    · rename_i hzx
      subst hzx
      split at h'
      · exact hz h'
      · exact hz (mem_of_mem_later h').2
    · split at h'
      · rename_i hzy
        subst hzy
        exact hz (mem_of_mem_later h).2
      · exact ih hn h h'

end Order

/-! ## What holds at every moment -/

/-- Who opens the connection, and who accepts it. -/
def Wire.pair (w : Wire n) : Fin n × Fin n := (w.caller.member, w.callee.member)

/-- Who opens the connection, and who accepts it. -/
def Dial.pair (d : Dial n) : Fin n × Fin n := (d.caller, d.callee)

namespace Party

/-- What a connection to member `i` is opened for. -/
def role (P : Party n) (host i : Fin n) : Role := if i = host then .roomHost (P.user host) else .member (P.user i)

/-- What the host says to the newcomer `i`: its greeting, the ranking and the token, and then who comes later. -/
def script (P : Party n) (host : Fin n) (token : String) (arrived : List (Fin n)) (i : Fin n) : List Message :=
  .hello (P.user host) :: .rankOrder ((host :: sofar i arrived).map P.user) :: .ack token ::
    (later i arrived).map fun j => .userInfo (P.user j)

/-- What the host says to those that have arrived grows with every newcomer. -/
theorem script_append {P : Party n} {host i : Fin n} {token : String} {arrived : List (Fin n)} (h : i ∈ arrived)
    (j : Fin n) :
    P.script host token (arrived ++ [j]) i = P.script host token arrived i ++ [.userInfo (P.user j)] := by
  simp [script, sofar_append h, later_append h]

theorem script_self {P : Party n} {host i : Fin n} {token : String} {arrived : List (Fin n)} (h : i ∉ arrived) :
    P.script host token (arrived ++ [i]) i =
      [.hello (P.user host), .rankOrder ((host :: (arrived ++ [i])).map P.user), .ack token] := by
  simp [script, sofar_self h, later_self h]

end Party

namespace Gathering

/-- The connections that are open or asked for. -/
def links (s : Gathering n) : List (Fin n × Fin n) := s.wires.map Wire.pair ++ s.dials.map Dial.pair

/-- The host has told member `q.1` of `q.2`, and that has yet to arrive. -/
def Tells (P : Party n) (host : Fin n) (s : Gathering n) (q : Fin n × Fin n) : Prop :=
  ∃ w ∈ s.wires, w.pair = (q.1, host) ∧ .userInfo (P.user q.2) ∈ s.mailbox w.caller

/-- Member `q.1` opens a connection to `q.2` sooner or later: to the host, or to a later member. -/
def Due (host : Fin n) (arrived : List (Fin n)) (q : Fin n × Fin n) : Prop :=
  q.1 ≠ host ∧ q.2 = host ∨ q.2 ∈ later q.1 arrived

/-- The members besides the host that member `i` has opened a connection to. -/
def reached (host : Fin n) (s : Gathering n) (i : Fin n) : List (Fin n) :=
  (s.wires.filter fun w => w.caller.member = i ∧ w.callee.member ≠ host).map fun w => w.callee.member

/-- What is on its way. On the connections in `hailing` the greeting of the one that has opened them has yet to arrive; on
those in `met` it has. -/
structure Post (P : Party n) (host : Fin n) (s : Gathering n) (arrived : List (Fin n)) (hailing met : List (Wire n)) :
    Prop where
  ends : s.ends.Nodup
  wires : s.wires.Perm (hailing ++ met)
  placed : ∀ p ∈ s.flight, p.target ∈ s.ends
  hungUp : s.hungUp = []
  arrivals : ∀ i, i ∈ arrived ↔ ∃ w ∈ met, w.pair = (i, host)
  hails : ∀ w ∈ hailing, s.mailbox w.callee = [.hello (P.user w.caller.member)] ∧ s.mailbox w.caller = []
  heard : ∀ w ∈ met, s.mailbox w.callee = []
  side : ∀ w ∈ met, w.callee.member ≠ host → s.mailbox w.caller = []
  script : ∀ w ∈ met, w.callee.member = host →
    s.mailbox w.caller <:+ P.script host ((s.member host).roomToken.getD "") arrived w.caller.member

/-- Who opens connections to whom: every one that is due is open or asked for, or the member has yet to be told. -/
structure Plan (P : Party n) (host : Fin n) (s : Gathering n) (arrived : List (Fin n)) : Prop where
  nodup : arrived.Nodup
  absent : host ∉ arrived
  once : s.links.Nodup
  due : ∀ q, Due host arrived q ↔ q ∈ s.links ∨ s.Tells P host q
  apart : ∀ q ∈ s.links, ¬ s.Tells P host q
  roles : ∀ d ∈ s.dials, d.role = P.role host d.callee

variable {P : Party n} {host : Fin n} {s t : Gathering n} {arrived : List (Fin n)} {hailing met : List (Wire n)}
  {w w' : Wire n}

/-! ## Who opens connections -/

namespace Plan

theorem due_asymm (g : Plan P host s arrived) {i j : Fin n} (h : Due host arrived (i, j)) :
    ¬ Due host arrived (j, i) := by
  rintro (⟨hj, rfl⟩ | hi)
  · rcases h with ⟨hi, -⟩ | hj'
    · exact hi rfl
    · exact g.absent (mem_of_mem_later hj').1
  · rcases h with ⟨-, rfl⟩ | hj
    · exact g.absent (mem_of_mem_later hi).1
    · exact later_asymm g.nodup hj hi

theorem ne_of_due (g : Plan P host s arrived) {i j : Fin n} (h : Due host arrived (i, j)) : i ≠ j := by
  rintro rfl
  exact g.due_asymm h h

/-- The host opens no connections. -/
theorem ne_host_of_due (g : Plan P host s arrived) {i j : Fin n} (h : Due host arrived (i, j)) : i ≠ host := by
  rcases h with ⟨hi, -⟩ | hj
  · exact hi
  · rintro rfl
    exact g.absent (mem_of_mem_later hj).1

theorem due_of_wire (g : Plan P host s arrived) (hw : w ∈ s.wires) : Due host arrived w.pair :=
  (g.due _).2 (.inl (List.mem_append_left _ (List.mem_map_of_mem hw)))

theorem due_of_dial (g : Plan P host s arrived) {d : Dial n} (hd : d ∈ s.dials) : Due host arrived d.pair :=
  (g.due _).2 (.inl (List.mem_append_right _ (List.mem_map_of_mem hd)))

/-- No member opens two connections to another one. -/
theorem unique (g : Plan P host s arrived) (hw : w ∈ s.wires) (hw' : w' ∈ s.wires) (h : w.pair = w'.pair) : w = w' :=
  List.inj_on_of_nodup_map (List.nodup_append.1 g.once).1 hw hw' h

theorem pair_ne_of_dial (g : Plan P host s arrived) {d : Dial n} (hd : d ∈ s.dials) (hw : w ∈ s.wires) :
    w.pair ≠ d.pair :=
  (List.nodup_append.1 g.once).2.2 _ (List.mem_map_of_mem hw) _ (List.mem_map_of_mem hd)

/-- Nobody is twice among those that had arrived when member `i` had and those that have arrived after it. -/
theorem nodup_split (g : Plan P host s arrived) (i : Fin n) :
    (sofar i arrived).Nodup ∧ (later i arrived).Nodup ∧ ∀ j ∈ sofar i arrived, ∀ k ∈ later i arrived, j ≠ k := by
  rw [← List.nodup_append, sofar_append_later]
  exact g.nodup

/-- A member asks for a connection to somebody whom neither the ranking from the host lists nor it has reached. -/
theorem unranked (g : Plan P host s arrived) {d : Dial n} (hd : d ∈ s.dials) (hc : d.callee ≠ host) :
    d.callee ∉ host :: sofar d.caller arrived ++ s.reached host d.caller := by
  have hlater : d.callee ∈ later d.caller arrived := (g.due_of_dial hd).resolve_left fun h => hc h.2
  intro hmem
  rcases List.mem_append.1 hmem with hmem | hmem
  · rcases List.mem_cons.1 hmem with hmem | hmem
    · exact hc hmem
    · exact (g.nodup_split _).2.2 _ hmem _ hlater rfl
  · obtain ⟨w, hw, hmem⟩ := List.mem_map.1 hmem
    obtain ⟨hw, hp⟩ := List.mem_filter.1 hw
    exact g.pair_ne_of_dial hd hw (Prod.ext (of_decide_eq_true hp).1 hmem)

/-- Nothing changes in who is told of whom. -/
theorem congr (g : Plan P host s arrived) (hl : t.links.Perm s.links) (ht : ∀ q, t.Tells P host q ↔ s.Tells P host q)
    (hd : ∀ d ∈ t.dials, d ∈ s.dials) : Plan P host t arrived where
  nodup := g.nodup
  absent := g.absent
  once := hl.nodup_iff.2 g.once
  due q := by rw [g.due, hl.mem_iff, ht]
  apart q hq := by
    rw [ht]
    exact g.apart q (hl.mem_iff.1 hq)
  roles d h := g.roles d (hd d h)

end Plan

/-! ## What is on its way -/

namespace Post

theorem nodup (g : Post P host s arrived hailing met) : (hailing ++ met).Nodup :=
  g.wires.nodup_iff.1 (List.Nodup.of_map _ (List.nodup_append.1 g.ends).1)

theorem mem_of_hailing (g : Post P host s arrived hailing met) (hw : w ∈ hailing) : w ∈ s.wires :=
  g.wires.mem_iff.2 (List.mem_append_left _ hw)

theorem mem_of_met (g : Post P host s arrived hailing met) (hw : w ∈ met) : w ∈ s.wires :=
  g.wires.mem_iff.2 (List.mem_append_right _ hw)

theorem ne_of_hailing (g : Post P host s arrived hailing met) (hw : w ∈ hailing) (hw' : w' ∈ met) : w ≠ w' :=
  (List.nodup_append.1 g.nodup).2.2 w hw w' hw'

/-- A greeting arrives. -/
theorem perm_met (g : Post P host s arrived hailing met) (hw : w ∈ hailing) :
    s.wires.Perm (hailing.erase w ++ w :: met) :=
  g.wires.trans (((List.perm_cons_erase hw).append_right met).trans List.perm_middle.symm)

theorem mem_erase (g : Post P host s arrived hailing met) (h : w' ∈ hailing.erase w) : w' ∈ hailing ∧ w' ≠ w :=
  have hn := (List.nodup_append.1 g.nodup).1
  ⟨List.mem_of_mem_erase h, ((List.Nodup.mem_erase_iff hn).1 h).1⟩

section Arrival

variable {p : Letter n} {before after : List (Letter n)} {m : Member} {es : List Effect}

/-- Something that the host has said arrives. -/
theorem read (g : Post P host s arrived hailing met) (hf : s.flight = before ++ p :: after)
    (hb : ∀ q ∈ before, q.target ≠ p.target) (hw : w ∈ met) (hc : w.callee.member = host) (hp : p.target = w.caller)
    (hne : w.caller.member ≠ host)
    (h : (s.member p.target.member).step (.received p.target.id p.envelope) = .ok (m, es)) (he : m.outgoing es = [])
    (hh : hangUps p.target.member es = []) : Post P host (s.deliver P p (before ++ after)) arrived hailing met := by
  obtain ⟨hself, hother⟩ := mailbox_deliver (P := P) hf hb h he
  rw [hp] at hself hother
  have hcallee : ∀ w' ∈ s.wires, w'.callee ≠ w.caller := fun w' hw' =>
    Ne.symm (caller_ne_callee g.ends (g.mem_of_met hw) hw')
  have hhost : (s.deliver P p (before ++ after)).member host = s.member host :=
    input_member_of_ne (hp ▸ Ne.symm hne)
  refine ⟨g.ends, g.wires, placed_deliver hf g.placed h, ?_, g.arrivals, ?_, ?_, ?_, ?_⟩
  · rw [deliver_hungUp h, hh, List.append_nil]
    exact g.hungUp
  · intro w' hw'
    have hne' : w'.caller ≠ w.caller := fun e =>
      g.ne_of_hailing hw' hw (eq_of_caller g.ends (g.mem_of_hailing hw') (g.mem_of_met hw) e)
    rw [hother _ (hcallee w' (g.mem_of_hailing hw')), hother _ hne']
    exact g.hails w' hw'
  · intro w' hw'
    rw [hother _ (hcallee w' (g.mem_of_met hw'))]
    exact g.heard w' hw'
  · intro w' hw' hc'
    have hne' : w'.caller ≠ w.caller := by
      intro e
      rw [eq_of_caller g.ends (g.mem_of_met hw') (g.mem_of_met hw) e] at hc'
      exact hc' hc
    rw [hother _ hne']
    exact g.side w' hw' hc'
  · intro w' hw' hc'
    rw [hhost]
    by_cases heq : w'.caller = w.caller
    · obtain rfl := eq_of_caller g.ends (g.mem_of_met hw') (g.mem_of_met hw) heq
      exact (hself ▸ List.suffix_cons _ _).trans (g.script w' hw' hc')
    · rw [hother _ heq]
      exact g.script w' hw' hc'

/-- A greeting arrives at a member that is not host. -/
theorem hear (g : Post P host s arrived hailing met) (hf : s.flight = before ++ p :: after)
    (hb : ∀ q ∈ before, q.target ≠ p.target) (hw : w ∈ hailing) (hc : w.callee.member ≠ host) (hp : p.target = w.callee)
    (h : (s.member p.target.member).step (.received p.target.id p.envelope) = .ok (m, es)) (he : m.outgoing es = [])
    (hh : hangUps p.target.member es = []) :
    Post P host (s.deliver P p (before ++ after)) arrived (hailing.erase w) (w :: met) := by
  obtain ⟨hself, hother⟩ := mailbox_deliver (P := P) hf hb h he
  rw [hp] at hself hother
  have hwires := g.mem_of_hailing hw
  have hcaller : ∀ w' ∈ s.wires, w'.caller ≠ w.callee := fun w' hw' => caller_ne_callee g.ends hw' hwires
  have hhost : (s.deliver P p (before ++ after)).member host = s.member host :=
    input_member_of_ne (hp ▸ Ne.symm hc)
  refine ⟨g.ends, g.perm_met hw, placed_deliver hf g.placed h, ?_, fun i => ?_, ?_, ?_, ?_, ?_⟩
  · rw [deliver_hungUp h, hh, List.append_nil]
    exact g.hungUp
  · rw [g.arrivals, List.exists_mem_cons_iff]
    refine ⟨.inr, fun h => h.resolve_left fun hpair => ?_⟩
    exact hc (congrArg Prod.snd hpair)
  · intro w' hw'
    obtain ⟨hw', hne⟩ := g.mem_erase hw'
    have hne' : w'.callee ≠ w.callee := fun e => hne (eq_of_callee g.ends (g.mem_of_hailing hw') hwires e)
    rw [hother _ hne', hother _ (hcaller w' (g.mem_of_hailing hw'))]
    exact g.hails w' hw'
  · refine List.forall_mem_cons.2 ⟨?_, fun w' hw' => ?_⟩
    · rw [(g.hails w hw).1] at hself
      exact (List.cons.inj hself).2.symm
    · have hne' : w'.callee ≠ w.callee := fun e =>
        g.ne_of_hailing hw hw' (eq_of_callee g.ends hwires (g.mem_of_met hw') e.symm)
      rw [hother _ hne']
      exact g.heard w' hw'
  · refine List.forall_mem_cons.2 ⟨fun _ => ?_, fun w' hw' hc' => ?_⟩
    · rw [hother _ (hcaller w hwires)]
      exact (g.hails w hw).2
    · rw [hother _ (hcaller w' (g.mem_of_met hw'))]
      exact g.side w' hw' hc'
  · refine List.forall_mem_cons.2 ⟨fun hc' => absurd hc' hc, fun w' hw' hc' => ?_⟩
    rw [hhost, hother _ (hcaller w' (g.mem_of_met hw'))]
    exact g.script w' hw' hc'

end Arrival

/-- A connection is open. -/
theorem connect (g : Post P host s arrived hailing met) {d : Dial n} {k l : ConnectionId} {rest : List (Dial n)}
    {m : Member} {news : List Event} (hk : (d.wire k l).caller ∉ s.ends) (hl : (d.wire k l).callee ∉ s.ends)
    (hne : d.caller ≠ d.callee) (hhost : d.caller ≠ host)
    (h : (s.member d.caller).step (.connected k d.role) =
      .ok (m, .send (.connection k) (.hello (P.user d.caller)) :: news.map .notify)) :
    Post P host (s.connect P d k l rest) arrived (d.wire k l :: hailing) met := by
  have hends : (s.wired (d.wire k l) rest).ends.Nodup :=
    nodup_ends_wired g.ends hk hl fun e => hne (congrArg Terminal.member e)
  obtain ⟨hcallee, hold⟩ := mailbox_connect (P := P) hends hl g.placed h
  have hsame : ∀ e ∈ s.ends, (s.connect P d k l rest).mailbox e = s.mailbox e := fun e he =>
    hold e (mem_ends_wired.2 (.inr (.inr he))) fun h => hl (h ▸ he)
  have hcaller : (s.connect P d k l rest).mailbox (d.wire k l).caller = [] := by
    rw [hold _ (mem_ends_wired.2 (.inl rfl)) fun e => hne (congrArg Terminal.member e)]
    exact mailbox_eq_nil fun p hp ht => hk (ht ▸ g.placed p hp)
  have hmember : (s.connect P d k l rest).member host = s.member host := input_member_of_ne (Ne.symm hhost)
  refine ⟨hends, ?_, fun p hp => ?_, ?_, g.arrivals, ?_, ?_, ?_, ?_⟩
  · exact (List.perm_append_singleton _ _).trans (g.wires.cons _)
  · rw [Gathering.connect, input_flight (s := s.wired (d.wire k l) rest) h, List.mem_append] at hp
    change p.target ∈ (s.wired (d.wire k l) rest).ends
    rcases hp with hp | hp
    · exact mem_ends_wired.2 (.inr (.inr (g.placed p hp)))
    · exact mem_ends_of_post hp
  · rw [Gathering.connect, input_hungUp (s := s.wired (d.wire k l) rest) h]
    simp [hangUps, wired, g.hungUp, List.filterMap_map]
  · refine List.forall_mem_cons.2 ⟨⟨hcallee, hcaller⟩, fun w hw => ?_⟩
    rw [hsame _ (callee_mem_ends (g.mem_of_hailing hw)), hsame _ (caller_mem_ends (g.mem_of_hailing hw))]
    exact g.hails w hw
  · intro w hw
    rw [hsame _ (callee_mem_ends (g.mem_of_met hw))]
    exact g.heard w hw
  · intro w hw hc
    rw [hsame _ (caller_mem_ends (g.mem_of_met hw))]
    exact g.side w hw hc
  · intro w hw hc
    rw [hmember, hsame _ (caller_mem_ends (g.mem_of_met hw))]
    exact g.script w hw hc

/-- The host has admitted the newcomer at the other end of `w`: it has said `said` to it, and has told the others of it. -/
structure Admits (P : Party n) (host : Fin n) (s t : Gathering n) (hailing met : List (Wire n)) (w : Wire n)
    (said : List Message) : Prop where
  heard : t.mailbox w.callee = []
  unheard : ∀ w' ∈ s.wires, w' ≠ w → t.mailbox w'.callee = s.mailbox w'.callee
  said : t.mailbox w.caller = said
  told : ∀ w' ∈ met, w'.callee.member = host →
    t.mailbox w'.caller = s.mailbox w'.caller ++ [.userInfo (P.user w.caller.member)]
  untold : ∀ w' ∈ s.wires, w' ∈ hailing ∧ w' ≠ w ∨ w'.callee.member ≠ host → t.mailbox w'.caller = s.mailbox w'.caller

section Admission

variable {p : Letter n} {before after : List (Letter n)} {m : Member} {es : List Effect}

/-- A greeting arrives at the host. -/
theorem admits (g : Post P host s arrived hailing met) (said : List Message) (hf : s.flight = before ++ p :: after)
    (hb : ∀ q ∈ before, q.target ≠ p.target) (hw : w ∈ hailing) (hc : w.callee.member = host) (hp : p.target = w.callee)
    (hcalls : ∀ w' ∈ s.wires, w'.caller.member ≠ host)
    (h : (s.member p.target.member).step (.received p.target.id p.envelope) = .ok (m, es))
    (hids : ∀ w' ∈ s.wires, w'.callee.member = host → (w'.callee.id ∈ m.peers.ids ↔ w' ∈ met ∨ w' = w))
    (hmail : ∀ id, m.mail es id =
      (if id ∈ m.peers.ids ∧ id ≠ w.callee.id then [.userInfo (P.user w.caller.member)] else []) ++
        if id = w.callee.id then said else []) :
    Admits P host s (s.deliver P p (before ++ after)) hailing met w said := by
  have hwires := g.mem_of_hailing hw
  have htarget : p.target.member = host := by rw [hp, hc]
  have hcallee : ∀ w' ∈ s.wires, (s.deliver P p (before ++ after)).mailbox w'.callee =
      mailbox { s with flight := before ++ after } w'.callee := by
    intro w' hw'
    rw [deliver, mailbox_input (s := { s with flight := before ++ after }) g.ends h (far?_callee g.ends hw'), htarget,
      if_neg (hcalls w' hw'), List.append_nil]
  have hcaller : ∀ w' ∈ s.wires, (s.deliver P p (before ++ after)).mailbox w'.caller =
      s.mailbox w'.caller ++ if w'.callee.member = host then m.mail es w'.callee.id else [] := by
    intro w' hw'
    rw [deliver, mailbox_input (s := { s with flight := before ++ after }) g.ends h (far?_caller g.ends hw'), htarget,
      mailbox_of_ne hf (hp ▸ caller_ne_callee g.ends hw' hwires)]
  have hid : ∀ w' ∈ s.wires, w'.callee.member = host → w' ≠ w → w'.callee.id ≠ w.callee.id := by
    intro w' hw' hc' hne he
    exact hne (eq_of_callee g.ends hw' hwires (Terminal.ext (hc'.trans hc.symm) he))
  refine ⟨?_, fun w' hw' hne => ?_, ?_, fun w' hw' hc' => ?_, fun w' hw' hother => ?_⟩
  · have hbox := mailbox_target hf hb
    rw [hp, (g.hails w hw).1] at hbox
    rw [hcallee w hwires]
    exact (List.cons.inj hbox).2.symm
  · rw [hcallee w' hw', mailbox_of_ne hf]
    exact hp ▸ fun e => hne (eq_of_callee g.ends hw' hwires e)
  · rw [hcaller w hwires, (g.hails w hw).2, if_pos hc, hmail]
    simp
  · have hne : w' ≠ w := Ne.symm (g.ne_of_hailing hw hw')
    have hne' := hid w' (g.mem_of_met hw') hc' hne
    rw [hcaller w' (g.mem_of_met hw'), if_pos hc', hmail, if_neg hne', List.append_nil,
      if_pos ⟨(hids w' (g.mem_of_met hw') hc').2 (.inl hw'), hne'⟩]
  · rw [hcaller w' hw']
    by_cases hc' : w'.callee.member = host
    · obtain ⟨hh, hne⟩ := hother.resolve_right (not_not_intro hc')
      have hids' : w'.callee.id ∉ m.peers.ids := fun h =>
        ((hids w' hw' hc').1 h).elim (fun hm => g.ne_of_hailing hh hm rfl) hne
      rw [if_pos hc', hmail, if_neg fun h => hids' h.1, if_neg (hid w' hw' hc' hne), List.append_nil, List.append_nil]
    · rw [if_neg hc', List.append_nil]

theorem welcome (g : Post P host s arrived hailing met) (hf : s.flight = before ++ p :: after) (hw : w ∈ hailing)
    (hc : w.callee.member = host) (hp : p.target = w.callee)
    (h : (s.member p.target.member).step (.received p.target.id p.envelope) = .ok (m, es))
    (hh : hangUps p.target.member es = []) (hm : m.roomToken = (s.member host).roomToken)
    (k : Admits P host s (s.deliver P p (before ++ after)) hailing met w
      (P.script host ((s.member host).roomToken.getD "") (arrived ++ [w.caller.member]) w.caller.member)) :
    Post P host (s.deliver P p (before ++ after)) (arrived ++ [w.caller.member]) (hailing.erase w) (w :: met) := by
  have hwires := g.mem_of_hailing hw
  have hhost : ((s.deliver P p (before ++ after)).member host).roomToken = (s.member host).roomToken := by
    have htarget : p.target.member = host := by rw [hp, hc]
    rw [← hm, ← deliver_member h, htarget]
  refine ⟨g.ends, g.perm_met hw, placed_deliver hf g.placed h, ?_, fun i => ?_, fun w' hw' => ?_, ?_, ?_, ?_⟩
  · rw [deliver_hungUp h, hh, List.append_nil]
    exact g.hungUp
  · rw [List.mem_append, List.mem_singleton, g.arrivals, List.exists_mem_cons_iff, or_comm]
    exact or_congr_left ⟨fun e => Prod.ext e.symm hc, fun e => (congrArg Prod.fst e).symm⟩
  · obtain ⟨hw', hne⟩ := g.mem_erase hw'
    rw [k.unheard w' (g.mem_of_hailing hw') hne, k.untold w' (g.mem_of_hailing hw') (.inl ⟨hw', hne⟩)]
    exact g.hails w' hw'
  · refine List.forall_mem_cons.2 ⟨k.heard, fun w' hw' => ?_⟩
    rw [k.unheard w' (g.mem_of_met hw') (Ne.symm (g.ne_of_hailing hw hw'))]
    exact g.heard w' hw'
  · refine List.forall_mem_cons.2 ⟨fun hc' => absurd hc hc', fun w' hw' hc' => ?_⟩
    rw [k.untold w' (g.mem_of_met hw') (.inr hc')]
    exact g.side w' hw' hc'
  · rw [hhost]
    refine List.forall_mem_cons.2 ⟨fun _ => k.said ▸ List.suffix_rfl, fun w' hw' hc' => ?_⟩
    have harrived : w'.caller.member ∈ arrived := (g.arrivals _).2 ⟨w', hw', Prod.ext rfl hc'⟩
    rw [k.told w' hw' hc', Party.script_append harrived]
    obtain ⟨pre, hpre⟩ := g.script w' hw' hc'
    exact ⟨pre, by rw [← hpre, List.append_assoc]⟩

end Admission

end Post

/-! ## Who is told of whom -/

theorem tells_congr (hw : t.wires = s.wires) (hb : ∀ w ∈ s.wires, ∀ u, .userInfo u ∈ t.mailbox w.caller ↔
    .userInfo u ∈ s.mailbox w.caller) (q : Fin n × Fin n) : t.Tells P host q ↔ s.Tells P host q := by
  simp only [Tells, hw]
  exact exists_congr fun w => and_congr_right fun h => and_congr_right fun _ => hb w h _

/-- A newcomer will open a connection to the host, and all that have arrived will open one to the newcomer. -/
theorem due_append {i : Fin n} (hi : i ∉ arrived) (q : Fin n × Fin n) :
    Due host (arrived ++ [i]) q ↔ Due host arrived q ∨ q.1 ∈ arrived ∧ q.2 = i := by
  obtain ⟨j, l⟩ := q
  by_cases hj : j ∈ arrived
  · simp [Due, later_append hj, hj, or_assoc]
  · by_cases hji : j = i
    · subst hji
      simp [Due, later_self hi, later_eq_nil hi, hi]
    · have hj' : j ∉ arrived ++ [i] := by simp [hj, hji]
      simp [Due, later_eq_nil hj', later_eq_nil hj, hj]

/-- When the host admits a newcomer, it tells those that have arrived of it, and nobody of anybody else. -/
theorem Post.Admits.tells_iff {said : List Message} (k : Post.Admits P host s t hailing met w said)
    (b : Post P host s arrived hailing met) (ht : t.wires = s.wires) (hsaid : ∀ u, .userInfo u ∉ said)
    (q : Fin n × Fin n) : t.Tells P host q ↔ s.Tells P host q ∨ q.1 ∈ arrived ∧ q.2 = w.caller.member := by
  obtain ⟨i, j⟩ := q
  constructor
  · rintro ⟨w', hw', hpair, hmem⟩
    rw [ht] at hw'
    by_cases heq : w' = w
    · rw [heq, k.said] at hmem
      exact absurd hmem (hsaid _)
    · rcases List.mem_append.1 (b.wires.mem_iff.1 hw') with hh | hm
      · rw [k.untold w' hw' (.inl ⟨hh, heq⟩)] at hmem
        exact .inl ⟨w', hw', hpair, hmem⟩
      · rw [k.told w' hm (congrArg Prod.snd hpair), List.mem_append, List.mem_singleton] at hmem
        rcases hmem with hmem | hmem
        · exact .inl ⟨w', hw', hpair, hmem⟩
        · exact .inr ⟨(b.arrivals i).2 ⟨w', hm, hpair⟩, P.user_injective (Message.userInfo.inj hmem)⟩
  · rintro (⟨w', hw', hpair, hmem⟩ | ⟨hi, rfl⟩)
    · refine ⟨w', ht ▸ hw', hpair, ?_⟩
      rcases List.mem_append.1 (b.wires.mem_iff.1 hw') with hh | hm
      · rw [(b.hails w' hh).2] at hmem
        simp at hmem
      · rw [k.told w' hm (congrArg Prod.snd hpair)]
        exact List.mem_append_left _ hmem
    · obtain ⟨w', hm, hpair⟩ := (b.arrivals i).1 hi
      refine ⟨w', ht ▸ b.mem_of_met hm, hpair, ?_⟩
      rw [k.told w' hm (congrArg Prod.snd hpair)]
      exact List.mem_append_right _ (List.mem_singleton.2 rfl)

namespace Plan

/-- Of the news that were on their way, that of member `j` has arrived, and it was there once. -/
theorem tells_ask (g : Plan P host s arrived) {j : Fin n} (ht : t.wires = s.wires) (hw : w ∈ s.wires)
    (hc : w.callee.member = host) (hself : s.mailbox w.caller = .userInfo (P.user j) :: t.mailbox w.caller)
    (hother : ∀ e, e ≠ w.caller → t.mailbox e = s.mailbox e) (hlast : .userInfo (P.user j) ∉ t.mailbox w.caller)
    (q : Fin n × Fin n) : t.Tells P host q ↔ s.Tells P host q ∧ q ≠ (w.caller.member, j) := by
  obtain ⟨i, l⟩ := q
  constructor
  · rintro ⟨w', hw', hpair, hmem⟩
    rw [ht] at hw'
    by_cases heq : w'.caller = w.caller
    · rw [heq] at hmem
      refine ⟨⟨w', hw', hpair, by rw [heq, hself]; exact List.mem_cons_of_mem _ hmem⟩, ?_⟩
      intro hq
      obtain ⟨-, rfl⟩ := Prod.mk.inj hq
      exact hlast hmem
    · rw [hother _ heq] at hmem
      refine ⟨⟨w', hw', hpair, hmem⟩, ?_⟩
      intro hq
      obtain ⟨rfl, -⟩ := Prod.mk.inj hq
      exact heq (congrArg Wire.caller (g.unique hw' hw (hpair.trans (Prod.ext rfl hc.symm))))
  · rintro ⟨⟨w', hw', hpair, hmem⟩, hne⟩
    refine ⟨w', ht ▸ hw', hpair, ?_⟩
    by_cases heq : w'.caller = w.caller
    · rw [heq, hself] at hmem
      rw [heq]
      refine (List.mem_cons.1 hmem).resolve_left fun hu => hne ?_
      refine Prod.ext ?_ (P.user_injective (Message.userInfo.inj hu))
      exact (congrArg Prod.fst hpair).symm.trans (congrArg Terminal.member heq)
    · rw [hother _ heq]
      exact hmem

section Arrival

variable {p : Letter n} {before after : List (Letter n)} {m : Member} {es : List Effect}

/-- Something else than news of a member arrives. -/
theorem deliver (g : Plan P host s arrived) (hf : s.flight = before ++ p :: after)
    (hb : ∀ q ∈ before, q.target ≠ p.target)
    (h : (s.member p.target.member).step (.received p.target.id p.envelope) = .ok (m, es)) (he : m.outgoing es = [])
    (hcalls : calls P p.target.member es = []) (hu : ∀ u, p.envelope.message ≠ .userInfo u) :
    Plan P host (s.deliver P p (before ++ after)) arrived := by
  obtain ⟨hself, hother⟩ := mailbox_deliver (P := P) hf hb h he
  have hdials : (s.deliver P p (before ++ after)).dials = s.dials := by rw [deliver_dials h, hcalls, List.append_nil]
  refine g.congr ?_ (tells_congr rfl fun w _ u => ?_) fun d hd => hdials ▸ hd
  · rw [links, hdials]
    exact List.Perm.refl _
  · by_cases hc : w.caller = p.target
    · rw [hc, hself, List.mem_cons, or_iff_right (Ne.symm (hu u))]
    · rw [hother _ hc]

/-- News of a member arrives, and the newcomer asks for a connection. -/
theorem ask (g : Plan P host s arrived) (hf : s.flight = before ++ p :: after)
    (hb : ∀ q ∈ before, q.target ≠ p.target) {j : Fin n} (hw : w ∈ s.wires) (hc : w.callee.member = host)
    (hp : p.target = w.caller) (hj : j ≠ host) (hm : p.envelope.message = .userInfo (P.user j))
    (hlast : .userInfo (P.user j) ∉ (s.deliver P p (before ++ after)).mailbox w.caller)
    (h : (s.member p.target.member).step (.received p.target.id p.envelope) = .ok (m, es)) (he : m.outgoing es = [])
    (hcalls : calls P p.target.member es = [⟨w.caller.member, j, .member (P.user j)⟩]) :
    Plan P host (s.deliver P p (before ++ after)) arrived := by
  obtain ⟨hself, hother⟩ := mailbox_deliver (P := P) hf hb h he
  rw [hp, hm] at hself
  have hdials : (s.deliver P p (before ++ after)).dials = s.dials ++ [⟨w.caller.member, j, .member (P.user j)⟩] := by
    rw [deliver_dials h, hcalls]
  have hlinks : (s.deliver P p (before ++ after)).links = s.links ++ [(w.caller.member, j)] := by
    rw [links, hdials, List.map_append, ← List.append_assoc]
    rfl
  have htold : s.Tells P host (w.caller.member, j) := ⟨w, hw, Prod.ext rfl hc, by rw [hself]; exact List.mem_cons_self⟩
  have htells : ∀ q, (s.deliver P p (before ++ after)).Tells P host q ↔
      s.Tells P host q ∧ q ≠ (w.caller.member, j) :=
    g.tells_ask rfl hw hc hself (fun e he => hother e (hp ▸ he)) hlast
  refine ⟨g.nodup, g.absent, ?_, fun q => ?_, fun q hq ht => ?_, ?_⟩
  · rw [hlinks, List.nodup_append_comm]
    exact List.nodup_cons.2 ⟨fun hq => g.apart _ hq htold, g.once⟩
  · rw [g.due, hlinks, htells, List.mem_append, List.mem_singleton]
    by_cases hq : q = (w.caller.member, j)
    · subst hq
      simp [htold]
    · simp [hq]
  · rw [htells] at ht
    rw [hlinks, List.mem_append, List.mem_singleton] at hq
    exact g.apart q (hq.resolve_right ht.2) ht.1
  · rw [hdials]
    refine List.forall_mem_append.2 ⟨g.roles, List.forall_mem_singleton.2 ?_⟩
    rw [Party.role, if_neg hj]

/-- The host admits a newcomer. -/
theorem welcome (g : Plan P host s arrived) (b : Post P host s arrived hailing met) {said : List Message}
    (hx : w.caller.member ∉ arrived) (hne : w.caller.member ≠ host)
    (h : (s.member p.target.member).step (.received p.target.id p.envelope) = .ok (m, es))
    (hcalls : calls P p.target.member es = []) (hsaid : ∀ u, .userInfo u ∉ said)
    (k : Post.Admits P host s (s.deliver P p (before ++ after)) hailing met w said) :
    Plan P host (s.deliver P p (before ++ after)) (arrived ++ [w.caller.member]) := by
  have hdials : (s.deliver P p (before ++ after)).dials = s.dials := by rw [deliver_dials h, hcalls, List.append_nil]
  have hlinks : (s.deliver P p (before ++ after)).links = s.links := by
    rw [links, hdials]
    rfl
  have htells : ∀ q, (s.deliver P p (before ++ after)).Tells P host q ↔
      s.Tells P host q ∨ q.1 ∈ arrived ∧ q.2 = w.caller.member := k.tells_iff b rfl hsaid
  refine ⟨?_, ?_, hlinks ▸ g.once, fun q => ?_, fun q hq ht => ?_, fun d hd => g.roles d (hdials ▸ hd)⟩
  · rw [List.nodup_append_comm]
    exact List.nodup_cons.2 ⟨hx, g.nodup⟩
  · simp [g.absent, Ne.symm hne]
  · rw [due_append hx, g.due, hlinks, htells, or_assoc]
  · rw [hlinks] at hq
    rcases (htells q).1 ht with ht | ⟨-, hj⟩
    · exact g.apart q hq ht
    · rcases (g.due q).2 (.inl hq) with ⟨-, hhost⟩ | hlater
      · exact hne (hj.symm.trans hhost)
      · exact hx (hj ▸ (mem_of_mem_later hlater).2)

end Arrival

/-- A connection is open that was asked for. -/
theorem connect (g : Plan P host s arrived) {d : Dial n} {k l : ConnectionId} {before after : List (Dial n)} {m : Member}
    {es : List Effect} (hd : s.dials = before ++ d :: after)
    (h : (s.member d.caller).step (.connected k d.role) = .ok (m, es)) (hcalls : calls P d.caller es = [])
    (hnew : (s.connect P d k l (before ++ after)).mailbox (d.wire k l).caller = [])
    (hold : ∀ w ∈ s.wires, (s.connect P d k l (before ++ after)).mailbox w.caller = s.mailbox w.caller) :
    Plan P host (s.connect P d k l (before ++ after)) arrived := by
  have hdials : (s.connect P d k l (before ++ after)).dials = before ++ after := by
    rw [Gathering.connect, input_dials (s := s.wired (d.wire k l) (before ++ after)) h, hcalls, List.append_nil]
    rfl
  have hwires : (s.connect P d k l (before ++ after)).wires = s.wires ++ [d.wire k l] := rfl
  refine g.congr ?_ (fun q => ?_) fun d' hd' => ?_
  · simp only [links, hdials, hwires, hd, List.map_append, List.map_cons, List.map_nil, List.append_assoc,
      List.singleton_append]
    exact List.Perm.append_left _ List.perm_middle.symm
  · simp only [Tells, hwires, List.mem_append, List.mem_singleton, or_and_right, exists_or, exists_eq_left, hnew,
      List.not_mem_nil, and_false, or_false]
    exact exists_congr fun w => and_congr_right fun hw => by rw [hold w hw]
  · rw [hdials] at hd'
    rw [hd]
    exact (List.sublist_cons_self d after).append_left before |>.subset hd'

end Plan

end Gathering
end Parley

import Mathlib.Data.List.Induction
import Parley.Proofs.Link.Reports

/-!
# Hubs are switchboards

A hub does in one go what takes several steps on a switchboard. Here its operations are taken apart: each of them is some acts
on one connection, between which nobody else does anything (`Enacts`). When octets come in, the reader has one turn in which it
reads all of them, and at a fault it drops the connection (`enacts_receive`); so it does at the end of the stream
(`enacts_finish`). Whoever cannot write to a connection, or closes it, takes it out and stops its reader between two turns
(`enacts_send`, `enacts_close`).

Every history of a hub is therefore a run of a switchboard, with the same events and in the end the same connections
(`exists_run_of_history`). It is one in which nobody takes a connection out during a turn of its reader, and so the end of a
connection is the last that a hub reports of it (`history_well_formed`).
-/

namespace Parley

namespace Hub

/-! ## What an operation does -/

section Operations

variable {h : Hub} {id : ConnectionId}

/-- A hub reports what the reader of a connection makes of the octets. -/
theorem receive_of_some {c : Connection} (hc : h.connections.get? id = some c) (octets : Bytes) :
    h.receive id octets =
      match (Reader.readAll c.mode h.key (c.unread ++ octets)).2 with
      | none =>
        ({ h with
            connections := h.connections.insert id
              { c with unread := (Frame.drain Frame.defaultLimit (c.unread ++ octets)).rest } },
          (Reader.readAll c.mode h.key (c.unread ++ octets)).1.map (.received id))
      | some f =>
        (h.close id, (Reader.readAll c.mode h.key (c.unread ++ octets)).1.map (.received id) ++ [.closed id (some f)]) := by
  rw [receive, hc]
  simp only [Reader.readFrames_eq]
  rfl

theorem receive_of_none (hc : h.connections.get? id = none) (octets : Bytes) : h.receive id octets = (h, []) := by
  rw [receive, hc]

theorem drop_of_none (hc : h.connections.get? id = none) (fault : Option Link.Fault) : h.drop id fault = (h, []) := by
  rw [drop, SortedMap.contains, hc]
  rfl

theorem drop_of_some {c : Connection} (hc : h.connections.get? id = some c) (fault : Option Link.Fault) :
    h.drop id fault = (h.close id, [.closed id fault]) := by
  rw [drop, SortedMap.contains, hc]
  rfl

theorem finish_of_some {c : Connection} (hc : h.connections.get? id = some c) :
    h.finish id = (h.close id, [.closed id (endFault c.unread)]) := by
  rw [finish, hc]
  exact drop_of_some hc _

theorem finish_of_none (hc : h.connections.get? id = none) : h.finish id = (h, []) := by
  rw [finish, hc]

/-- Sending does nothing to the connections, or it drops the one that cannot be written to. -/
theorem send_cases (h : Hub) (id : ConnectionId) (e : Envelope) :
    (h.send id e).1 = h ∧ (h.send id e).2.1 = [] ∨
      ∃ cause, ((h.send id e).1, (h.send id e).2.1) = h.drop id (some (writeFault cause)) := by
  unfold send
  split
  · exact .inl ⟨rfl, rfl⟩
  · split
    · exact .inl ⟨rfl, rfl⟩
    · split
      · exact .inl ⟨rfl, rfl⟩
      · rename_i cause _
        exact .inr ⟨cause, rfl⟩

/-- Closing connections leaves those with other ids. -/
theorem connections_foldl_close (h : Hub) (ids : List ConnectionId) :
    ids.foldl close h = { h with connections := ⟨h.connections.entries.filter fun e => e.1 ∉ ids⟩ } := by
  induction ids generalizing h with
  | nil => simp [List.filter_eq_self.2]
  | cons id ids ih =>
    rw [List.foldl_cons, ih]
    simp only [close, SortedMap.erase, List.filter_filter, List.mem_cons, not_or, Bool.decide_and]
    congr 2
    exact List.filter_congr fun e _ => Bool.and_comm ..

/-- Closing the connections one after the other is closing them all. -/
theorem foldl_close_keys (h : Hub) : h.connections.keys.foldl close h = h.shutdown := by
  rw [connections_foldl_close, shutdown, SortedMap.empty]
  have hnone : (h.connections.entries.filter fun e => e.1 ∉ h.connections.keys) = [] := by
    rw [List.filter_eq_nil_iff]
    intro e he
    have hkey : e.1 ∈ h.connections.keys := List.mem_map_of_mem he
    simpa using hkey
  rw [hnone]

end Operations

/-! ## Histories -/

/-- What is done with a hub. -/
inductive Op where
  | install (key : RoomKey)
  | add (id : ConnectionId) (o : Switchboard.Opening)
  | send (id : ConnectionId) (envelope : Envelope)
  | receive (id : ConnectionId) (octets : Bytes)
  | finish (id : ConnectionId)
  | close (id : ConnectionId)
  | shutdown
  deriving DecidableEq, Repr

/-- The connection that is added. -/
def Op.added? : Op → Option (ConnectionId × Switchboard.Opening)
  | add id o => some (id, o)
  | _ => none

/-- The connections that are added. -/
def added (ops : List Op) : List (ConnectionId × Switchboard.Opening) := ops.filterMap Op.added?

/-- The hub after an operation, and what it reports. -/
def carry (h : Hub) : Op → Hub × List HubEvent
  | .install key => (h.setKey key, [])
  | .add id o => h.add id o.remote o.mode o.inbound
  | .send id e => ((h.send id e).1, (h.send id e).2.1)
  | .receive id octets => h.receive id octets
  | .finish id => h.finish id
  | .close id => (h.close id, [])
  | .shutdown => (h.shutdown, [])

/-- A hub after operations from the start, and all that it has reported. -/
def history (ops : List Op) : Hub × List HubEvent :=
  ops.foldl (fun out op => ((out.1.carry op).1, out.2 ++ (out.1.carry op).2)) (empty, [])

theorem history_concat (ops : List Op) (op : Op) :
    history (ops ++ [op]) = (((history ops).1.carry op).1, (history ops).2 ++ ((history ops).1.carry op).2) :=
  List.foldl_append ..

end Hub

namespace Switchboard

/-! ## Acts between which nobody else comes -/

section Settled

variable {acts bs : List Act}

/-- Acts after which nothing is under way, and by which nobody takes the connection out during a turn of its reader. -/
structure Settled (acts : List Act) : Prop where
  apart : Apart acts
  hasTurn_eq : hasTurn acts = false
  isLeaving_eq : isLeaving acts = false

theorem hasTurn_append (h : hasTurn acts = false) (bs : List Act) : hasTurn (acts ++ bs) = hasTurn bs := by
  rw [hasTurn, List.foldl_append, ← hasTurn, h]
  rfl

theorem isLeaving_append (h : isLeaving acts = false) (bs : List Act) : isLeaving (acts ++ bs) = isLeaving bs := by
  rw [isLeaving, List.foldl_append, ← isLeaving, h]
  rfl

theorem settled_nil : Settled [] := ⟨by decide, rfl, rfl⟩

theorem Settled.append (h : Settled acts) (g : Settled bs) : Settled (acts ++ bs) where
  hasTurn_eq := (hasTurn_append h.hasTurn_eq bs).trans g.hasTurn_eq
  isLeaving_eq := (isLeaving_append h.isLeaving_eq bs).trans g.isLeaving_eq
  apart before hbefore hturn := by
    rw [List.mem_inits] at hbefore
    rcases List.prefix_or_prefix_of_prefix hbefore (List.prefix_append acts bs) with hshort | ⟨rest, rfl⟩
    · exact h.apart before ((List.mem_inits ..).2 hshort) hturn
    · rw [hasTurn_append h.hasTurn_eq] at hturn
      rw [isLeaving_append h.isLeaving_eq]
      exact g.apart rest ((List.mem_inits ..).2 ((List.prefix_append_right_inj acts).1 hbefore)) hturn

theorem hasTurn_eq_false (h : .wake ∉ acts) : hasTurn acts = false := by
  induction acts using List.reverseRecOn with
  | nil => rfl
  | append_singleton acts a ih =>
    rw [List.mem_append, not_or] at h
    rw [hasTurn_append (ih h.1)]
    cases a with
    | wake => simp at h
    | _ => rfl

theorem isLeaving_eq_false (hfail : ∀ cause, .fail cause ∉ acts) (hclose : .close ∉ acts) : isLeaving acts = false := by
  induction acts using List.reverseRecOn with
  | nil => rfl
  | append_singleton acts a ih =>
    simp only [List.mem_append, not_or, forall_and] at hfail hclose
    rw [isLeaving_append (ih hfail.1 hclose.1)]
    cases a with
    | fail cause => simp at hfail
    | close => simp at hclose
    | _ => rfl

/-- A turn of the reader, which is over in the end. -/
theorem settled_turn (reads : List Reader.Act) {last : List Act} (hlast : last = [.rest] ∨ last = [.drop, .tell]) :
    Settled (.wake :: reads.map .read ++ last) := by
  have hleaving (before : List Act) (hbefore : before <+: .wake :: reads.map .read ++ last) : isLeaving before = false := by
    refine isLeaving_eq_false (fun cause hmem => ?_) fun hmem => ?_
    all_goals
      have hmem := hbefore.subset hmem
      rcases hlast with rfl | rfl <;> simp at hmem
  refine ⟨fun before hbefore _ => hleaving before ((List.mem_inits ..).1 hbefore), ?_, hleaving _ List.prefix_rfl⟩
  rcases hlast with rfl | rfl <;> simp [hasTurn]

/-- What somebody else does, who has stopped the reader in the end. -/
theorem settled_of_notMem (hwake : .wake ∉ acts) (hleaving : isLeaving acts = false) : Settled acts :=
  ⟨fun before hbefore hturn => by
    rw [hasTurn_eq_false fun hmem => hwake (((List.mem_inits ..).1 hbefore).subset hmem)] at hturn
    contradiction,
    hasTurn_eq_false hwake, hleaving⟩

end Settled

/-! ## One connection -/

namespace Line

/-- A connection with nothing under way: its reader rests in front of octets that are no whole frame, or everything is over. -/
inductive Idle : Line → Prop
  | listed (o : Opening) {unread : Bytes} (h : Frame.decode Frame.defaultLimit unread = .ok none) :
    Idle ⟨o, .listed, ⟨unread, .reads⟩, .resting, none⟩
  | out (o : Opening) (r : Reader) : Idle ⟨o, .out, r, .gone, none⟩

/-- What a hub has of a connection. -/
def entry? (l : Line) : Option Connection :=
  match l.place with
  | .listed => some ⟨l.opening.remote, l.opening.mode, l.reader.unread⟩
  | _ => none

/-- What a hub comes to by an operation, and what it reports, is what acts on one connection come to. -/
structure Enacts (id : ConnectionId) (l : Line) (h : Hub) (acts : List Act) (k : Line) (out : Hub × List HubEvent) :
    Prop where
  run : Run id l acts k out.2
  /-- Frames are opened with the key of the hub. -/
  keyed : ∀ key, .read (.decode key) ∈ acts → key = h.key
  settled : Settled acts
  idle : k.Idle
  entry_eq : out.1.connections.get? id = k.entry?
  key_eq : out.1.key = h.key
  others : ∀ j, j ≠ id → out.1.connections.get? j = h.connections.get? j

section Operations

variable {id : ConnectionId} {l k : Line} {h : Hub} {acts : List Act} {events : List HubEvent}

/-- Nothing is done. -/
theorem enacts_nothing (hl : l.Idle) (hentry : h.connections.get? id = l.entry?) : Enacts id l h [] l (h, []) :=
  ⟨.refl, by simp, settled_nil, hl, hentry, rfl, fun _ _ => rfl⟩

/-- The connection is taken out. -/
theorem enacts_out {o : Opening} {r : Reader} (hrun : Run id l acts ⟨o, .out, r, .gone, none⟩ events)
    (hkeyed : ∀ key, .read (.decode key) ∈ acts → key = h.key) (hsettled : Settled acts) :
    Enacts id l h acts ⟨o, .out, r, .gone, none⟩ (h.close id, events) :=
  ⟨hrun, hkeyed, hsettled, .out o r, SortedMap.get?_erase_self .., rfl, fun _ hj => SortedMap.get?_erase_of_ne _ hj⟩

/-- A reader has a turn in which it reads all octets that come in. -/
theorem exists_run_turn (id : ConnectionId) (o : Opening) (key : Option RoomKey) {unread : Bytes}
    (h : Frame.decode Frame.defaultLimit unread = .ok none) (octets : Bytes) :
    let (said, fault) := Reader.readAll o.mode key (unread ++ octets)
    ∃ (reads : List Reader.Act) (t : Reader),
      Run id ⟨o, .listed, ⟨unread, .reads⟩, .resting, none⟩ (.wake :: reads.map .read) ⟨o, .listed, t, .working, none⟩
        (said.map (.received id)) ∧
      (∀ k, .decode k ∈ reads → k = key) ∧
      (fault = none → t = ⟨(Frame.drain Frame.defaultLimit (unread ++ octets)).rest, .reads⟩ ∧ t.Waits) ∧
      ∀ f, fault = some f → t.stage = .stops (some f) := by
  obtain ⟨reads, t, hreads, hkeys, hnone, hsome⟩ := Reader.exists_run_readAll o.mode key (unread ++ octets)
  have htake : Run id ⟨o, .listed, ⟨unread, .reads⟩, .resting, none⟩ [.wake, .read (.take octets)]
      ⟨o, .listed, ⟨unread ++ octets, .reads⟩, .working, none⟩ [] :=
    (Run.refl.tail (.wake rfl)).tail (.silent rfl (.take octets h))
  refine ⟨.take octets :: reads, t, htake.trans (run_read id rfl hreads), fun k hk => hkeys k (by simpa using hk),
    fun hfault => ?_, hsome⟩
  obtain rfl := hnone hfault
  exact ⟨rfl, Frame.decode_drain_rest Frame.defaultLimit _ (by simp_all [Reader.readAll])⟩

/-- **Octets come in**: the reader reads all of them in one turn, and drops the connection if there is a fault. -/
theorem enacts_receive (hl : l.Idle) (hentry : h.connections.get? id = l.entry?) (octets : Bytes) :
    ∃ acts k, Enacts id l h acts k (h.receive id octets) := by
  cases hl with
  | out o r =>
    rw [Hub.receive_of_none hentry]
    exact ⟨_, _, enacts_nothing (.out o r) hentry⟩
  | @listed o unread hdecode =>
    obtain ⟨reads, t, hrun, hkeyed, hnone, hsome⟩ := exists_run_turn id o h.key hdecode octets
    rw [Hub.receive_of_some hentry]
    dsimp only at hnone hsome ⊢
    cases hfault : (Reader.readAll o.mode h.key (unread ++ octets)).2 with
    | none =>
      obtain ⟨rfl, hwaits⟩ := hnone hfault
      have hrest := hrun.tail (.rest rfl hwaits)
      rw [List.append_nil] at hrest
      exact ⟨_, _, hrest, by simpa using hkeyed, settled_turn reads (.inl rfl), .listed o hwaits,
        SortedMap.get?_insert_self .., rfl, fun j hj => SortedMap.get?_insert_of_ne _ _ hj⟩
    | some f =>
      have hdrop := (hrun.tail (.drop rfl (hsome f hfault) rfl)).tail (.tell rfl)
      rw [List.append_nil, List.append_assoc] at hdrop
      exact ⟨_, _, enacts_out hdrop (by simpa using hkeyed) (settled_turn reads (.inr rfl))⟩

/-- **The end of the stream**: the reader drops the connection. -/
theorem enacts_finish (hl : l.Idle) (hentry : h.connections.get? id = l.entry?) :
    ∃ acts k, Enacts id l h acts k (h.finish id) := by
  cases hl with
  | out o r =>
    rw [Hub.finish_of_none hentry]
    exact ⟨_, _, enacts_nothing (.out o r) hentry⟩
  | @listed o unread hdecode =>
    rw [Hub.finish_of_some hentry]
    have hturn : Run id ⟨o, .listed, ⟨unread, .reads⟩, .resting, none⟩ [.wake, .read .finish]
        ⟨o, .listed, ⟨unread, .stops (Hub.endFault unread)⟩, .working, none⟩ [] :=
      (Run.refl.tail (.wake rfl)).tail (.silent rfl (.finish hdecode))
    exact ⟨_, _, enacts_out ((hturn.tail (.drop rfl rfl rfl)).tail (.tell rfl)) (by simp) (settled_turn [.finish] (.inr rfl))⟩

/-- **An envelope is written**: if it cannot be, the connection is taken out, its reader stopped and its end reported. -/
theorem enacts_send (hl : l.Idle) (hentry : h.connections.get? id = l.entry?) (e : Envelope) :
    ∃ acts k, Enacts id l h acts k ((h.send id e).1, (h.send id e).2.1) := by
  rcases h.send_cases id e with ⟨hhub, hevents⟩ | ⟨cause, hdrop⟩
  · rw [hhub, hevents]
    exact ⟨_, _, enacts_nothing hl hentry⟩
  · rw [hdrop]
    cases hl with
    | out o r =>
      rw [Hub.drop_of_none hentry]
      exact ⟨_, _, enacts_nothing (.out o r) hentry⟩
    | @listed o unread hdecode =>
      rw [Hub.drop_of_some hentry]
      have hfail : Run id ⟨o, .listed, ⟨unread, .reads⟩, .resting, none⟩ [.fail cause, .abort, .tell]
          ⟨o, .out, ⟨unread, .reads⟩, .gone, none⟩ [.closed id (some (Hub.writeFault cause))] :=
        ((Run.refl.tail (.fail cause rfl)).tail (.abort rfl)).tail (.tell rfl)
      exact ⟨_, _, enacts_out hfail (by simp) (settled_of_notMem (by simp) rfl)⟩

/-- **A connection is closed**: it is taken out and its reader stopped. -/
theorem enacts_close (hl : l.Idle) (hentry : h.connections.get? id = l.entry?) :
    ∃ acts k, Enacts id l h acts k (h.close id, []) := by
  cases hl with
  | out o r => exact ⟨[], _, enacts_out .refl (by simp) settled_nil⟩
  | @listed o unread hdecode =>
    have hclose : Run id ⟨o, .listed, ⟨unread, .reads⟩, .resting, none⟩ [.close]
        ⟨o, .out, ⟨unread, .reads⟩, .resting, some (.stop none)⟩ [] := (Step.close rfl).run
    have habort := hclose.tail (.abort rfl)
    exact ⟨_, _, enacts_out habort (by simp) (settled_of_notMem (by simp) rfl)⟩

end Operations

end Line

/-! ## All connections -/

/-- A switchboard on which nothing is under way, and a hub with the same connections and the same key. -/
structure Matches (s : Switchboard) (h : Hub) : Prop where
  key_eq : s.key = h.key
  entry_eq : ∀ id, h.connections.get? id = (s.lines.get? id).bind Line.entry?
  idle : ∀ id l, s.lines.get? id = some l → l.Idle

theorem matches_empty : Matches empty .empty :=
  ⟨rfl, fun id => by rw [empty, Hub.empty, SortedMap.get?_empty, SortedMap.get?_empty]; rfl,
    fun id l hl => by simp [empty, SortedMap.get?_empty] at hl⟩

/-- The connections that are opened. -/
def openings (ms : List Move) : List (ConnectionId × Opening) :=
  ms.filterMap fun
    | .opens id o => some (id, o)
    | _ => none

/-- A run goes on as a hub does in an operation. -/
def GoesOn (ms : List Move) (events : List HubEvent) (added : Option (ConnectionId × Opening)) (out : Hub × List HubEvent) :
    Prop :=
  ∃ bs t, Run (ms ++ bs) t (events ++ out.2) ∧ Matches t out.1 ∧ openings bs = added.toList ∧
    ∀ id, Settled (actsOn id bs)

section Histories

variable {ms : List Move} {s : Switchboard} {h : Hub} {events : List HubEvent}

theorem openings_append (ms bs : List Move) : openings (ms ++ bs) = openings ms ++ openings bs := List.filterMap_append

theorem actsOn_append (id : ConnectionId) (ms bs : List Move) : actsOn id (ms ++ bs) = actsOn id ms ++ actsOn id bs :=
  List.filterMap_append

theorem openings_acts (id : ConnectionId) (acts : List Act) : openings (acts.map (.acts id)) = [] := by
  simp [openings]

theorem settled_acts {id : ConnectionId} {acts : List Act} (h : Settled acts) (j : ConnectionId) :
    Settled (actsOn j (acts.map (.acts id))) := by
  rcases eq_or_ne id j with rfl | hne
  · simpa [actsOn, List.filterMap_map, Function.comp_def, Move.act?] using h
  · simpa [actsOn, List.filterMap_map, Function.comp_def, Move.act?, hne] using settled_nil

/-- A connection is opened if and only if there is one. -/
theorem Run.get?_eq_none (h : Run ms s events) {id : ConnectionId} (hid : id ∉ (openings ms).map Prod.fst) :
    s.lines.get? id = none := by
  refine Option.eq_none_iff_forall_ne_some.2 fun l hl => hid ?_
  have hopens : .opens id l.opening ∈ ms := (((h.line id).2 l hl).opens_iff _).2 rfl
  exact List.mem_map.2 ⟨(id, l.opening), List.mem_filterMap.2 ⟨_, hopens, rfl⟩, rfl⟩

theorem goesOn_nothing (hm : Matches s h) (hrun : Run ms s events) : GoesOn ms events none (h, []) :=
  ⟨[], s, by simpa using hrun, hm, rfl, fun _ => settled_nil⟩

/-- An operation on one connection. -/
theorem Matches.goesOn (hm : Matches s h) (hrun : Run ms s events) {id : ConnectionId} {out : Hub × List HubEvent}
    (hnone : h.connections.get? id = none → out = (h, []))
    (hsome : ∀ l : Line, l.Idle → h.connections.get? id = l.entry? → ∃ acts k, Line.Enacts id l h acts k out) :
    GoesOn ms events none out := by
  cases hl : s.lines.get? id with
  | none =>
    obtain rfl := hnone (by rw [hm.entry_eq, hl]; rfl)
    exact goesOn_nothing hm hrun
  | some l =>
    obtain ⟨acts, k, hk⟩ := hsome l (hm.idle id l hl) (by rw [hm.entry_eq, hl]; rfl)
    obtain ⟨t, ht, hline, hkey, hothers⟩ := hrun.lift hk.run hl fun key hmem => (hk.keyed key hmem).trans hm.key_eq.symm
    refine ⟨_, t, ht, ⟨?_, fun j => ?_, fun j m hj => ?_⟩, openings_acts id acts, settled_acts hk.settled⟩
    · rw [hkey, hm.key_eq, hk.key_eq]
    all_goals rcases eq_or_ne j id with rfl | hne
    · rw [hk.entry_eq, hline]
      rfl
    · rw [hk.others j hne, hothers j hne, hm.entry_eq]
    · rw [hline] at hj
      exact Option.some.inj hj ▸ hk.idle
    · rw [hothers j hne] at hj
      exact hm.idle j m hj

/-- Connections are closed one after the other. -/
theorem Matches.goesOn_closes (hm : Matches s h) (hrun : Run ms s events) (ids : List ConnectionId) :
    GoesOn ms events none (ids.foldl Hub.close h, []) := by
  induction ids generalizing ms s h events with
  | nil => exact goesOn_nothing hm hrun
  | cons id ids ih =>
    have hclose : GoesOn ms events none (h.close id, []) := by
      refine hm.goesOn hrun (fun hnone => ?_) fun l hl hentry => Line.enacts_close hl hentry
      rw [Hub.close, SortedMap.erase_of_notMem ((SortedMap.notMem_keys_iff ..).2 hnone)]
    obtain ⟨bs, t, ht, hmt, hopenings, hsettled⟩ := hclose
    obtain ⟨cs, u, hu, hmu, hopenings', hsettled'⟩ := ih hmt ht
    refine ⟨bs ++ cs, u, by simpa using hu, hmu, ?_, fun j => ?_⟩
    · rw [openings_append, hopenings, hopenings']
      rfl
    · rw [actsOn_append]
      exact (hsettled j).append (hsettled' j)

/-- A connection is opened and listed. -/
theorem Matches.goesOn_add (hm : Matches s h) (hrun : Run ms s events) {id : ConnectionId} (o : Opening)
    (hnew : s.lines.get? id = none) : GoesOn ms events (some (id, o)) (h.add id o.remote o.mode o.inbound) := by
  have hopen := hrun.tail (.opens o hnew)
  obtain ⟨t, ht, hline, hkey, hothers⟩ := hopen.lift (Line.Step.enter rfl).run (SortedMap.get?_insert_self ..) (by simp)
  have hother (j : ConnectionId) (hne : j ≠ id) : t.lines.get? j = s.lines.get? j := by
    rw [hothers j hne]
    exact SortedMap.get?_insert_of_ne _ _ hne
  rw [List.append_nil, List.append_assoc] at ht
  have hsettled (j : ConnectionId) : Settled (actsOn j ([.opens id o] ++ [Act.enter].map (.acts id))) :=
    (actsOn_append ..).symm ▸ settled_nil.append (settled_acts (settled_of_notMem (by simp) rfl) j)
  refine ⟨_, t, ht, ⟨hkey.trans hm.key_eq, fun j => ?_, fun j m hj => ?_⟩, rfl, hsettled⟩
  all_goals rcases eq_or_ne j id with rfl | hne
  · rw [hline]
    exact SortedMap.get?_insert_self ..
  · rw [hother j hne, ← hm.entry_eq]
    exact SortedMap.get?_insert_of_ne _ _ hne
  · rw [hline] at hj
    exact Option.some.inj hj ▸ .listed o rfl
  · rw [hother j hne] at hj
    exact hm.idle j m hj

/-- **What a hub does in one operation takes some steps of a switchboard.** -/
theorem Matches.carry (hm : Matches s h) (hrun : Run ms s events) (op : Hub.Op)
    (hnew : ∀ a ∈ op.added?, s.lines.get? a.1 = none) : GoesOn ms events op.added? (h.carry op) := by
  cases op with
  | install key =>
    exact ⟨[.installs key], _, hrun.tail (.installs key), ⟨rfl, hm.entry_eq, hm.idle⟩, rfl, fun _ => settled_nil⟩
  | add id o => exact hm.goesOn_add hrun o (hnew (id, o) rfl)
  | send id e =>
    refine hm.goesOn hrun (fun hnone => ?_) fun l hl hentry => Line.enacts_send hl hentry e
    simp [Hub.carry, Hub.send, hnone]
  | receive id octets =>
    exact hm.goesOn hrun (fun hnone => Hub.receive_of_none hnone octets)
      fun l hl hentry => Line.enacts_receive hl hentry octets
  | finish id => exact hm.goesOn hrun Hub.finish_of_none fun l hl hentry => Line.enacts_finish hl hentry
  | close id => exact hm.goesOn_closes hrun [id]
  | shutdown =>
    have hcloses := hm.goesOn_closes hrun h.connections.keys
    rwa [Hub.foldl_close_keys] at hcloses

/-- **Every history of a hub is a run of a switchboard**, if no id is used twice. -/
theorem exists_run_of_history {ops : List Hub.Op} (hops : ((Hub.added ops).map Prod.fst).Nodup) :
    ∃ ms s, Run ms s (Hub.history ops).2 ∧ Matches s (Hub.history ops).1 ∧ openings ms = Hub.added ops ∧
      ∀ id, Settled (actsOn id ms) := by
  induction ops using List.reverseRecOn with
  | nil => exact ⟨[], empty, .refl, matches_empty, rfl, fun _ => settled_nil⟩
  | append_singleton ops op ih =>
    have hadded : Hub.added (ops ++ [op]) = Hub.added ops ++ op.added?.toList := by
      cases h : op.added? <;> simp [Hub.added, h]
    rw [hadded, List.map_append, List.nodup_append] at hops
    obtain ⟨hold, -, hdisjoint⟩ := hops
    obtain ⟨ms, s, hrun, hm, hopenings, hsettled⟩ := ih hold
    have hnew (a : ConnectionId × Opening) (ha : a ∈ op.added?) : s.lines.get? a.1 = none := by
      refine hrun.get?_eq_none fun hmem => hdisjoint a.1 (hopenings ▸ hmem) a.1 ?_ rfl
      exact List.mem_map_of_mem (Option.mem_toList.2 ha)
    obtain ⟨bs, t, ht, hmt, hopenings', hsettled'⟩ := hm.carry hrun op hnew
    rw [Hub.history_concat]
    refine ⟨ms ++ bs, t, ht, hmt, ?_, fun id => ?_⟩
    · rw [openings_append, hopenings, hopenings', hadded]
    · rw [actsOn_append]
      exact (hsettled id).append (hsettled' id)

/-- **The events of a hub are well formed.** Of a connection that was added, a hub reports first that somebody has connected,
if so, then messages, and then at most one end, and none as long as the connection is open. Of others it reports nothing. -/
theorem history_well_formed {ops : List Hub.Op} (hops : ((Hub.added ops).map Prod.fst).Nodup) (id : ConnectionId) :
    (id ∉ (Hub.added ops).map Prod.fst → about id (Hub.history ops).2 = []) ∧
      ∀ o, (id, o) ∈ Hub.added ops → ∃ (said : List Envelope) (closing : Option (Option Link.Fault)),
        about id (Hub.history ops).2 = o.greeting id ++ said.map (.received id) ++ closing.toList.map (.closed id) ∧
        ((Hub.history ops).1.connections.contains id = true → closing = none) := by
  obtain ⟨ms, s, hrun, hm, hopenings, hsettled⟩ := exists_run_of_history hops
  obtain ⟨hnone, hsome⟩ := hrun.line id
  refine ⟨fun hid => (hnone (hrun.get?_eq_none (hopenings.symm ▸ hid))).about_eq, fun o ho => ?_⟩
  have hopens : .opens id o ∈ ms := by
    rw [← hopenings, openings, List.mem_filterMap] at ho
    obtain ⟨m, hmem, ho⟩ := ho
    cases m with
    | opens =>
      obtain ⟨rfl, rfl⟩ := Prod.mk.inj (Option.some.inj ho)
      exact hmem
    | _ => contradiction
  cases hl : s.lines.get? id with
  | none => exact absurd hopens ((hnone hl).opens o)
  | some l =>
    obtain ⟨hopens_iff, told, habout, hline⟩ := hsome l hl
    obtain rfl := (hopens_iff o).1 hopens
    obtain ⟨said, between, late, closing, haccount, hcalm⟩ := hline.account
    obtain ⟨rfl, rfl, -⟩ := hcalm (hsettled id).apart
    refine ⟨said, closing, by simpa [habout] using haccount.told_eq, fun hopen => ?_⟩
    have hentry : (Hub.history ops).1.connections.get? id = l.entry? := by rw [hm.entry_eq, hl]; rfl
    rw [SortedMap.contains, hentry, Line.entry?] at hopen
    split at hopen
    · rename_i hlisted
      exact (haccount.isListed_iff.1 hlisted).2.1
    · contradiction

end Histories

end Switchboard
end Parley

import Parley.Proofs.Cipher.Advert
import Parley.Proofs.Member.Reachable

/-!
# Looking for a room

A member that is given the listing of the directory asks for a connection to the first host on it, and for one to the next
host when it is told that a connection could not be opened. A `Search` is such a member, with all that it has asked for and
the answers that it has had. One connection at most is asked for without an answer, so the next answer is that to the last
question, and the search has reached one of three stages (`Search.Run.stage`): the hosts so far could not be reached and the
next one is being tried, one of them was reached, or none was and the member hosts a new room.

A search in which every question is answered is over after as many answers as there are hosts at most, and ends in one of
the last two stages (`Member.Looks.search_ends`).
-/

namespace Parley

/-- What is said, and to whom. -/
def Effect.said? : Effect → Option (Recipient × Message)
  | .send recipient message => some (recipient, message)
  | .connect _ _ | .disconnect _ | .notify _ => none

/-- How the look-up has ended, where that is reported. -/
def Effect.result? : Effect → Option Bool
  | .notify (.directoryResult becameHost) => some becameHost
  | _ => none

/-- The host of a room to which a connection is asked for. -/
def Effect.host? : Effect → Option Identity
  | .connect _ (.roomHost u) => some u
  | _ => none

namespace Member

/-- A member whose name can travel has the key of a room and a connection to the directory, and looks for the room. -/
structure Looks (m : Member) (k : RoomKey) (d : ConnectionId) : Prop where
  name : Identity.isValidName m.me.name = true
  key : m.key = some k
  directory : m.directory = some d
  isHost : m.isHost = false
  roomToken : m.roomToken = none

/-- A member that looks for a room. -/
structure Search where
  member : Member
  /-- All that the member has asked for, in order. -/
  effects : List Effect
  /-- The hosts to which a connection has been asked for, without an answer so far. -/
  waiting : List Identity
  /-- The answers, in order: the connection to a host, unless none could be opened. -/
  answers : List (Identity × Option ConnectionId)

namespace Search

/-- What the answer is to the member. -/
def answer (u : Identity) : Option ConnectionId → Input
  | some id => .connected id (.roomHost u)
  | none => .connectFailed (.roomHost u)

/-- The search after an input to the member. -/
def take (s : Search) (x : Member × List Effect) : Search :=
  { s with
    member := x.1
    effects := s.effects ++ x.2
    waiting := s.waiting ++ x.2.filterMap Effect.host? }

/-- The searches that come of a listing when every question is answered once and nothing else happens. -/
inductive Run (m : Member) (listing : Input) : Search → Prop
  | listed : Run m listing (take ⟨m, [], [], []⟩ (m.after listing, m.effectsOf listing))
  | answered {s : Search} {before rest : List Identity} {u : Identity} (h : Run m listing s)
    (hw : s.waiting = before ++ u :: rest) (r : Option ConnectionId) :
    Run m listing
      (take { s with waiting := before ++ rest, answers := s.answers ++ [(u, r)] }
        (s.member.after (answer u r), s.member.effectsOf (answer u r)))

/-- The connections that have been asked for, in order. -/
def calls (s : Search) : List (SocketAddress × Role) := s.effects.filterMap Effect.call?

/-- What has been said, in order. -/
def said (s : Search) : List (Recipient × Message) := s.effects.filterMap Effect.said?

/-- The results of the look-up that have been reported. -/
def results (s : Search) : List Bool := s.effects.filterMap Effect.result?

/-- The connection to the host of a room. -/
def call (u : Identity) : SocketAddress × Role := (.v4 u.addr, .roomHost u)

/-- The hosts so far could not be reached, and the next one is being tried. -/
structure Trying (m : Member) (hosts tried : List Identity) (u : Identity) (rest : List Identity) (s : Search) :
    Prop where
  hosts : hosts = tried ++ u :: rest
  member : s.member = { m with candidates := rest }
  waiting : s.waiting = [u]
  answers : s.answers = tried.map fun v => (v, none)
  calls : s.calls = (tried ++ [u]).map call
  said : s.said = []
  results : s.results = []

/-- The hosts before `u` could not be reached, and `u` was: the member follows it, waits for the clock of the room and tries
no other host. -/
structure Joined (m : Member) (hosts tried : List Identity) (u : Identity) (id : ConnectionId) (s : Search) : Prop where
  hosts : ∃ rest, hosts = tried ++ u :: rest
  waiting : s.waiting = []
  answers : s.answers = (tried.map fun v => (v, none)) ++ [(u, some id)]
  calls : s.calls = (tried ++ [u]).map call
  said : s.said = [(.connection id, .hello m.me)]
  results : s.results = [false]
  host : s.member.host = some u.addr
  isHost : s.member.isHost = false
  clock : s.member.clock = .unsynced
  candidates : s.member.candidates = []

/-- No host could be reached: the member is the host of a new room, and its advert is on the way to the directory. -/
structure Founded (m : Member) (k : RoomKey) (hosts : List Identity) (s : Search) : Prop where
  waiting : s.waiting = []
  answers : s.answers = hosts.map fun v => (v, none)
  calls : s.calls = hosts.map call
  said : ∃ advert, s.said = [(.directory, .hostRoom advert)] ∧ k.openAdvert advert = .ok m.me
  results : s.results = [true]
  host : s.member.host = some m.me.addr
  isHost : s.member.isHost = true
  clock : s.member.clock = .start

theorem calls_take (s : Search) (x : Member × List Effect) :
    (s.take x).calls = s.calls ++ x.2.filterMap Effect.call? := List.filterMap_append

theorem said_take (s : Search) (x : Member × List Effect) : (s.take x).said = s.said ++ x.2.filterMap Effect.said? :=
  List.filterMap_append

theorem results_take (s : Search) (x : Member × List Effect) :
    (s.take x).results = s.results ++ x.2.filterMap Effect.result? := List.filterMap_append

/-- How far a search has come. -/
inductive Stage (m : Member) (k : RoomKey) (hosts : List Identity) (s : Search) : Prop
  | trying {tried : List Identity} {u : Identity} {rest : List Identity} (t : s.Trying m hosts tried u rest)
  | joined {tried : List Identity} {u : Identity} {id : ConnectionId} (j : s.Joined m hosts tried u id)
  | founded (f : s.Founded m k hosts)

end Search

open Search

variable {m : Member} {k : RoomKey} {d : ConnectionId} {hosts tried rest : List Identity} {u : Identity} {s : Search}

/-! ## One question and its answer -/

/-- With nobody left to try, the advert goes to the directory. -/
theorem Looks.tryNextCandidate_nil (h : m.Looks k d) :
    tryNextCandidate { m with candidates := [] } =
      ({ m with candidates := [], isHost := true, host := some m.me.addr, clock := .start },
        [.send .directory (.hostRoom (k.sealAdvert m.me)), .notify (.directoryResult true)]) := by
  simp [tryNextCandidate, becomeHost, advert?, h.key, h.directory, h.roomToken]

/-- After hosts that could not be reached the member tries the next one, or hosts a new room. -/
theorem Looks.stage_next (h : m.Looks k d) (tried : List Identity) (hh : hosts = tried ++ rest) (hw : s.waiting = [])
    (ha : s.answers = tried.map fun v => (v, none)) (hc : s.calls = tried.map call) (hs : s.said = [])
    (hr : s.results = []) : Stage m k hosts (s.take (tryNextCandidate { m with candidates := rest })) := by
  cases rest with
  | nil =>
    rw [List.append_nil] at hh
    subst hh
    rw [h.tryNextCandidate_nil]
    refine .founded ⟨?_, ha, ?_, ⟨_, ?_, k.openAdvert_sealAdvert h.name⟩, ?_, rfl, rfl, rfl⟩
    · rw [take, hw]
      rfl
    · rw [calls_take, hc]
      exact List.append_nil _
    · rw [said_take, hs]
      rfl
    · rw [results_take, hr]
      rfl
  | cons u rest =>
    refine .trying ⟨hh, rfl, ?_, ha, ?_, ?_, ?_⟩
    · rw [take, hw]
      rfl
    · rw [calls_take, hc, List.map_append]
      rfl
    · rw [said_take, hs]
      rfl
    · rw [results_take, hr]
      rfl

/-- A host that is reached is followed. -/
theorem Looks.joined_of_trying (h : m.Looks k d) (t : s.Trying m hosts tried u rest) (id : ConnectionId) :
    Joined m hosts tried u id
      (take { s with waiting := [], answers := s.answers ++ [(u, some id)] }
        (s.member.onConnected id (.roomHost u))) := by
  have heffects : (s.member.onConnected id (.roomHost u)).2 =
      (m.peers.displaced? id u).toList.map Effect.disconnect ++
        [.send (.connection id) (.hello m.me), .notify (.peerJoined u), .notify (.directoryResult false)] := by
    rw [t.member]
    rfl
  -- the connection that is closed asks for nothing, says nothing and reports nothing
  have hclosed {β : Type} (f : Effect → Option β) (hf : ∀ id, f (.disconnect id) = none) :
      (s.member.onConnected id (.roomHost u)).2.filterMap f =
        [Effect.send (.connection id) (.hello m.me), .notify (.peerJoined u),
          .notify (.directoryResult false)].filterMap f := by
    rw [heffects, List.filterMap_append, List.filterMap_map, List.filterMap_eq_nil_iff.2, List.nil_append]
    exact fun id _ => hf id
  refine ⟨⟨rest, t.hosts⟩, ?_, ?_, ?_, ?_, ?_, ?_, ?_, ?_, ?_⟩
  · exact hclosed Effect.host? fun _ => rfl
  · rw [← t.answers]
    rfl
  · rw [calls_take, hclosed Effect.call? fun _ => rfl, ← t.calls]
    exact List.append_nil _
  · rw [said_take, hclosed Effect.said? fun _ => rfl]
    exact congrArg (· ++ _) t.said
  · rw [results_take, hclosed Effect.result? fun _ => rfl]
    exact congrArg (· ++ _) t.results
  · rfl
  · rw [take, t.member]
    exact h.isHost
  · rfl
  · rfl

/-- An answer ends the search, or leads to the next host. -/
theorem Looks.stage_answered (h : m.Looks k d) (t : s.Trying m hosts tried u rest) (r : Option ConnectionId) :
    Stage m k hosts
      (take { s with waiting := [], answers := s.answers ++ [(u, r)] }
        (s.member.after (answer u r), s.member.effectsOf (answer u r))) := by
  cases r with
  | some id => exact .joined (h.joined_of_trying t id)
  | none =>
    have hnext : (s.member.after (answer u none), s.member.effectsOf (answer u none)) =
        tryNextCandidate { m with candidates := rest } := by
      rw [t.member]
      rfl
    rw [hnext]
    refine h.stage_next (tried ++ [u]) ?_ rfl ?_ t.calls t.said t.results
    · rw [t.hosts, List.append_assoc, List.singleton_append]
    · rw [t.answers, List.map_append]
      rfl

/-- What a listing from the directory is to a member with a key. -/
theorem onMessage_roomList (hk : m.key = some k) (hd : m.directory = some d) (a : Endpoint) (entries : List Bytes) :
    m.onMessage d ⟨a, .roomList entries⟩ =
      ((tryNextCandidate { m with candidates := k.hosts m.me.addr entries }).1,
        .notify (.messageReceived (m.peers.get? d) (.roomList entries)) ::
          (tryNextCandidate { m with candidates := k.hosts m.me.addr entries }).2) := by
  rw [k.hosts_eq]
  simp only [onMessage, act, hd, if_true, onRoomList, hk]

/-! ## Runs -/

/-- As long as an answer is open, a host is being tried. -/
theorem Search.Stage.exists_trying (st : Stage m k hosts s) (hw : s.waiting ≠ []) :
    ∃ tried u rest, s.Trying m hosts tried u rest := by
  cases st with
  | trying t => exact ⟨_, _, _, t⟩
  | joined j => exact absurd j.waiting hw
  | founded f => exact absurd f.waiting hw

/-- Every search is at one of the three stages. -/
theorem Search.Run.stage (h : m.Looks k d) {a : Endpoint} {entries : List Bytes}
    (r : Run m (.received d ⟨a, .roomList entries⟩) s) : Stage m k (k.hosts m.me.addr entries) s := by
  induction r with
  | listed =>
    have hlisted : take ⟨m, [], [], []⟩
        (m.after (.received d ⟨a, .roomList entries⟩), m.effectsOf (.received d ⟨a, .roomList entries⟩)) =
        take ⟨m, [.notify (.messageReceived (m.peers.get? d) (.roomList entries))], [], []⟩
          (tryNextCandidate { m with candidates := k.hosts m.me.addr entries }) := by
      rw [after, effectsOf, step, onMessage_roomList h.key h.directory]
      rfl
    rw [hlisted]
    exact h.stage_next [] rfl rfl rfl rfl rfl rfl
  | @answered s before rest u _ hw reply ih =>
    obtain ⟨tried, v, others, t⟩ := ih.exists_trying (by simp [hw])
    -- one question is open, so the answer is to that one
    rw [t.waiting] at hw
    cases before with
    | nil =>
      obtain ⟨rfl, rfl⟩ := List.cons.inj hw
      exact h.stage_answered t reply
    | cons w before => simp at hw

/-- With an answer for every host, a search comes to an end. -/
theorem Search.Run.exists_ended (h : m.Looks k d) {a : Endpoint} {entries : List Bytes}
    (r : Run m (.received d ⟨a, .roomList entries⟩) s) (replies : List (Option ConnectionId))
    (hlen : (k.hosts m.me.addr entries).length ≤ s.answers.length + replies.length) :
    ∃ s', Run m (.received d ⟨a, .roomList entries⟩) s' ∧ s'.waiting = [] ∧
      s'.answers.map Prod.snd <+: s.answers.map Prod.snd ++ replies := by
  induction replies generalizing s with
  | nil =>
    refine ⟨s, r, ?_, List.prefix_append _ _⟩
    by_contra hw
    obtain ⟨tried, u, rest, t⟩ := (r.stage h).exists_trying hw
    rw [t.hosts, t.answers, List.length_append, List.length_map, List.length_cons, List.length_nil] at hlen
    omega
  | cons reply replies ih =>
    by_cases hw : s.waiting = []
    · exact ⟨s, r, hw, List.prefix_append _ _⟩
    · obtain ⟨tried, u, rest, t⟩ := (r.stage h).exists_trying hw
      have hopen : s.waiting = [] ++ u :: [] := t.waiting
      obtain ⟨s', r', hend, hanswers⟩ := ih (r.answered hopen reply) (by
        simp only [take, List.length_append, List.length_cons, List.length_nil] at hlen ⊢
        omega)
      refine ⟨s', r', hend, ?_⟩
      simpa [take] using hanswers

/-- **Every usable room is tried once, in order, and the search ends in one way.** A member that looks for a room is given a
listing, and each connection to a host that it asks for is opened or not, in any pattern. Once no answer is open, the member
has asked for connections to the hosts of the rooms that its key opens, in the order of the listing, up to the first that
was opened, and follows that host; or none was opened and it hosts a new room, after as many failures as there are hosts.
And whatever the answers are, the search gets there. -/
theorem Looks.search_ends (h : m.Looks k d) (a : Endpoint) (entries : List Bytes) :
    (∀ s, Run m (.received d ⟨a, .roomList entries⟩) s → s.waiting = [] →
      (∃ tried u id, s.Joined m (k.hosts m.me.addr entries) tried u id) ∨ s.Founded m k (k.hosts m.me.addr entries)) ∧
    ∀ replies : List (Option ConnectionId), (k.hosts m.me.addr entries).length ≤ replies.length →
      ∃ s, Run m (.received d ⟨a, .roomList entries⟩) s ∧ s.waiting = [] ∧ s.answers.map Prod.snd <+: replies := by
  constructor
  · intro s r hw
    cases r.stage h with
    | trying t =>
      rw [t.waiting] at hw
      cases hw
    | joined j => exact .inl ⟨_, _, _, j⟩
    | founded f => exact .inr f
  · intro replies hlen
    exact Run.listed.exists_ended h replies (Nat.le_trans hlen (Nat.le_add_left ..))

/-- A listing with the member's own room, something that is no advert, and two rooms. The host of the first one cannot be
reached, and that of the second one can. -/
theorem search_ends_second :
    let k : RoomKey := ⟨RoomKey.zeroBlock⟩
    let ann : Identity := ⟨"ann", ⟨.loopback, 7001⟩⟩
    let bob : Identity := ⟨"bob", ⟨.loopback, 7002⟩⟩
    let cyd : Identity := ⟨"cyd", ⟨.loopback, 7003⟩⟩
    let m := ((outside ann (.v4 ⟨.loopback, 7000⟩)).after (.join k)).after (.connected 1 .discover)
    let entries := [k.sealAdvert ann, [1, 2, 3], k.sealAdvert bob, k.sealAdvert cyd]
    m.Looks k 1 ∧ k.hosts ann.addr entries = [bob, cyd] ∧
      ∃ s, Run m (.received 1 ⟨⟨.loopback, 7000⟩, .roomList entries⟩) s ∧ s.waiting = [] ∧
        s.calls = [call bob, call cyd] ∧ s.member.host = some cyd.addr := by
  intro k ann bob cyd m entries
  have h : m.Looks k 1 := ⟨by decide, rfl, rfl, rfl, rfl⟩
  have hhosts : k.hosts m.me.addr entries = [bob, cyd] := by
    have hown : k.host? m.me.addr (k.sealAdvert ann) = none := k.host?_sealAdvert_self (by decide)
    have hnone : k.host? m.me.addr [1, 2, 3] = none := rfl
    have hbob : k.host? m.me.addr (k.sealAdvert bob) = some bob := k.host?_sealAdvert (by decide) (by decide)
    have hcyd : k.host? m.me.addr (k.sealAdvert cyd) = some cyd := k.host?_sealAdvert (by decide) (by decide)
    exact (List.filterMap_cons_none hown).trans ((List.filterMap_cons_none hnone).trans
      ((List.filterMap_cons_some hbob).trans (congrArg (bob :: ·) (List.filterMap_cons_some hcyd))))
  obtain ⟨hend, hexists⟩ := h.search_ends ⟨.loopback, 7000⟩ entries
  rw [hhosts] at hend hexists
  obtain ⟨s, r, hw, hanswers⟩ := hexists [none, some 7] (by decide)
  refine ⟨h, hhosts, s, r, hw, ?_⟩
  rcases hend s r hw with ⟨tried, u, id, j⟩ | f
  · obtain ⟨rest, hrest⟩ := j.hosts
    rw [j.answers] at hanswers
    rw [j.calls, j.host]
    match tried, hrest with
    | [], hrest => simp at hanswers
    | [v], hrest =>
      simp only [List.cons_append, List.nil_append, List.cons.injEq] at hrest
      obtain ⟨rfl, rfl, -⟩ := hrest
      exact ⟨rfl, rfl⟩
    | v :: w :: tried, hrest => simp at hrest
  · rw [f.answers] at hanswers
    simp at hanswers

end Member
end Parley

import Parley.Proofs.Member.Reachable
import Parley.Proofs.Overtaking
import Parley.Proofs.Turns

/-!
# No line is lost

Lines come to a member on any connections, among messages of all kinds, while connections are opened and lost and the room
gets other hosts. The listener is told of a line when it comes, or once the clock has reached it; the one who sent it may be
gone by then, and is still named.

Four things can be done about chat: a line is sent, one that comes is taken up or waits, and the member looks at what waits.
All other inputs leave what waits alone, and all but four kinds of them leave the clock alone (`Member.Resets`): this takes
one lemma for each handler (`Member.Aside`). What one input does is `Member.exchange_after`; nothing after it looks into the
handlers. Of the lines that have come, each has been told of once or waits once (`Hearing.Complete`), and the clock counts the
lines that are sent or told of (`Hearing.counted`).
-/

namespace Parley

/-- An effect is about chat: it sends a line, or tells the listener of one. -/
def Effect.isChat : Effect → Bool
  | .send _ (.chat _ _) | .notify (.messageReceived _ (.chat _ _)) => true
  | _ => false

/-- The effects that are about chat. -/
def Effect.chats (effects : List Effect) : List Effect := effects.filter Effect.isChat

/-- How many lines effects send. -/
def Effect.said (effects : List Effect) : Nat :=
  effects.countP fun
    | .send _ (.chat _ _) => true
    | _ => false

namespace Effect

variable {es : List Effect}

theorem chats_append (es fs : List Effect) : chats (es ++ fs) = chats es ++ chats fs := List.filter_append ..

theorem chats_map {α : Type} {f : α → Effect} (hf : ∀ a, (f a).isChat = false) (as : List α) :
    chats (as.map f) = [] := by
  refine List.filter_eq_nil_iff.2 fun e he => ?_
  obtain ⟨a, -, rfl⟩ := List.mem_map.1 he
  rw [hf a]
  exact Bool.false_ne_true

theorem lines_of_chats_eq_nil (h : chats es = []) : lines es = [] := by
  refine List.filterMap_eq_nil_iff.2 fun e he => ?_
  have hchat := List.filter_eq_nil_iff.1 h e he
  unfold isChat at hchat
  split at hchat
  · exact absurd rfl hchat
  · exact absurd rfl hchat
  · rename_i hnotify
    split
    · exact absurd rfl (hnotify _ _ _)
    · rfl

theorem said_of_chats_eq_nil (h : chats es = []) : said es = 0 := by
  refine List.countP_eq_zero.2 fun e he => ?_
  have hchat := List.filter_eq_nil_iff.1 h e he
  unfold isChat at hchat
  split at hchat
  · exact absurd rfl hchat
  · exact absurd rfl hchat
  · rename_i hsend _
    split
    · exact absurd rfl (hsend _ _ _)
    · exact Bool.false_ne_true

end Effect

namespace Member

/-- An input may set the clock: the member enters a room, joins the room of a host, or tries the next room. -/
def Resets (m : Member) : Input → Prop
  | .join _ | .connected _ (.roomHost _) | .connectFailed (.roomHost _) => True
  | .received id ⟨_, .roomList _⟩ => m.directory = some id
  | _ => False

/-- How many lines a member sends, given inputs one after the other. -/
def sends (m : Member) : List Input → Nat
  | [] => 0
  | i :: is => Effect.said (m.effectsOf i) + (m.after i).sends is

variable {m : Member} {x : Member × List Effect} {p q : Prop}

theorem sends_append (m : Member) (is js : List Input) : m.sends (is ++ js) = m.sends is + (m.run is).sends js := by
  induction is generalizing m with
  | nil => exact (Nat.zero_add _).symm
  | cons i is ih =>
    rw [List.cons_append, sends, sends, ih, Nat.add_assoc]
    rfl

/-! ## What is not about chat -/

/-- What is done is not about chat. The clock stays as it is, unless `p` holds. -/
structure Aside (m : Member) (p : Prop) (x : Member × List Effect) : Prop where
  pending : x.1.pending = m.pending
  clock : ¬ p → x.1.clock = m.clock
  chats : Effect.chats x.2 = []

theorem Aside.mono (h : m.Aside p x) (hpq : p → q) : m.Aside q x :=
  ⟨h.pending, fun hq => h.clock fun hp => hq (hpq hp), h.chats⟩

/-- The table and the candidates may have been changed before. -/
theorem Aside.of_eq {m' : Member} (h : m'.Aside p x) (hp : m'.pending = m.pending) (hc : m'.clock = m.clock) :
    m.Aside p x :=
  ⟨h.pending.trans hp, fun hn => (h.clock hn).trans hc, h.chats⟩

/-- More may be done first. -/
theorem Aside.prepend (h : m.Aside p x) (es : List Effect) (hes : Effect.chats es = []) : m.Aside p (x.1, es ++ x.2) :=
  ⟨h.pending, h.clock, by rw [Effect.chats_append, hes, h.chats]; rfl⟩

theorem aside_self (m : Member) : m.Aside False (m, []) := ⟨rfl, fun _ => rfl, rfl⟩

theorem aside_forget (m : Member) (user : Identity) (announce : Bool) : m.Aside False (m.forget user announce) := by
  have hfst : (m.forget user announce).1.pending = m.pending ∧ (m.forget user announce).1.clock = m.clock := by
    rw [forget_fst]
    split <;> exact ⟨rfl, rfl⟩
  refine ⟨hfst.1, fun _ => hfst.2, List.filter_eq_nil_iff.2 fun x hx => ?_⟩
  obtain rfl | rfl | ⟨id, rfl⟩ := eq_of_mem_forget hx <;> exact Bool.false_ne_true

theorem aside_onVote (m : Member) : m.Aside False m.onVote := by
  have hfst : m.onVote.1.pending = m.pending ∧ m.onVote.1.clock = m.clock := by
    rw [onVote_fst]
    split <;> exact ⟨rfl, rfl⟩
  refine ⟨hfst.1, fun _ => hfst.2, List.filter_eq_nil_iff.2 fun x hx => ?_⟩
  obtain ⟨id, rfl⟩ | rfl | rfl | rfl := eq_of_mem_onVote hx <;> exact Bool.false_ne_true

theorem aside_onLeader (m : Member) (id : ConnectionId) (sender : Endpoint) : m.Aside False (m.onLeader id sender) := by
  unfold onLeader
  dsimp only
  split <;> exact ⟨rfl, fun _ => rfl, rfl⟩

theorem chats_register (m : Member) (id : ConnectionId) (user : Identity) :
    Effect.chats (m.register id user).2 = [] :=
  Effect.chats_map (fun _ => rfl) _

theorem aside_onHello (m : Member) (id : ConnectionId) (user : Identity) : m.Aside False (m.onHello id user) := by
  have hjoined (b : Bool) : Effect.chats (if b then [] else [.notify (.peerJoined user)]) = [] := by
    cases b <;> rfl
  unfold onHello
  dsimp only
  split
  · refine ⟨rfl, fun _ => rfl, ?_⟩
    rw [Effect.chats_append, Effect.chats_append, chats_register, hjoined]
    rfl
  · refine ⟨rfl, fun _ => rfl, ?_⟩
    rw [Effect.chats_append, chats_register, hjoined]
    rfl

theorem aside_onUserInfo (m : Member) (user : Identity) : m.Aside False (m.onUserInfo user) := by
  unfold onUserInfo
  split <;> exact ⟨rfl, fun _ => rfl, rfl⟩

theorem aside_onAck (m : Member) (info : String) : m.Aside False (m.onAck info) := by
  unfold onAck
  dsimp only
  split <;> exact ⟨rfl, fun _ => rfl, Effect.chats_map (fun _ => rfl) _⟩

theorem aside_onDeadUser (m : Member) (user : Identity) : m.Aside False (m.onDeadUser user) := by
  unfold onDeadUser
  split
  · exact aside_self m
  · split
    · rename_i dead _
      exact ((aside_forget _ _ false).prepend [.disconnect dead] rfl).of_eq rfl rfl
    · split
      · exact aside_forget m user false
      · exact aside_self m

theorem aside_onBye (m : Member) (id : ConnectionId) : m.Aside False (m.onBye id) := by
  unfold onBye
  split
  · exact ((aside_forget _ _ false).prepend [.disconnect id] rfl).of_eq rfl rfl
  · exact ⟨rfl, fun _ => rfl, rfl⟩

theorem aside_onClosed (m : Member) (id : ConnectionId) : m.Aside False (m.onClosed id) := by
  unfold onClosed
  split
  · exact ⟨rfl, fun _ => rfl, rfl⟩
  · split
    · exact (aside_forget _ _ true).of_eq rfl rfl
    · exact aside_self m

/-- What a member tells the directory of its room is not chat. -/
theorem chats_advert {advert : Message} (h : m.advert? = some advert) (r : Recipient) (effects : List Effect) :
    Effect.chats (.send r advert :: effects) = Effect.chats effects := by
  obtain ⟨k, -, rfl⟩ := Option.map_eq_some_iff.1 h
  split <;> rfl

/-- A member that hosts a new room starts the clock. -/
theorem aside_tryNextCandidate (m : Member) : m.Aside True m.tryNextCandidate := by
  unfold tryNextCandidate
  split
  · exact ⟨rfl, fun h => absurd trivial h, rfl⟩
  · unfold becomeHost
    dsimp only
    split
    · rename_i hadvert
      exact ⟨rfl, fun h => absurd trivial h, chats_advert hadvert _ _⟩
    · exact ⟨rfl, fun h => absurd trivial h, rfl⟩

theorem aside_onRoomList (m : Member) (entries : List Bytes) : m.Aside True (m.onRoomList entries) := by
  unfold onRoomList
  split
  · exact (aside_self m).mono False.elim
  · exact (aside_tryNextCandidate _).of_eq rfl rfl

theorem aside_onConnected (m : Member) (id : ConnectionId) (role : Role) :
    m.Aside (m.Resets (.connected id role)) (m.onConnected id role) := by
  cases role with
  | discover => exact ⟨rfl, fun _ => rfl, rfl⟩
  | advertise =>
    unfold onConnected
    dsimp only
    split
    · rename_i hadvert
      exact ⟨rfl, fun _ => rfl, chats_advert hadvert _ _⟩
    · exact ⟨rfl, fun _ => rfl, rfl⟩
  | roomHost user =>
    refine ⟨rfl, fun h => absurd trivial h, ?_⟩
    unfold onConnected
    dsimp only
    rw [Effect.chats_append, chats_register]
    rfl
  | member user =>
    refine ⟨rfl, fun _ => rfl, ?_⟩
    unfold onConnected
    dsimp only
    rw [Effect.chats_append, chats_register]
    rfl

theorem aside_onConnectFailed (m : Member) (role : Role) :
    m.Aside (m.Resets (.connectFailed role)) (m.onConnectFailed role) := by
  cases role with
  | discover | advertise | member user => exact ⟨rfl, fun _ => rfl, rfl⟩
  | roomHost user => exact aside_tryNextCandidate m

theorem aside_act (m : Member) (id : ConnectionId) (e : Envelope) : m.Aside (m.Resets (.received id e)) (m.act id e) := by
  obtain ⟨sender, message⟩ := e
  cases message with
  | hello user => exact aside_onHello m id user
  | userInfo user => exact aside_onUserInfo m user
  | yourInfo user =>
    unfold act
    dsimp only
    split
    · exact ⟨rfl, fun _ => rfl, rfl⟩
    · exact aside_self m
  | roomList entries =>
    unfold act
    dsimp only
    split
    · rename_i hdirectory
      exact (aside_onRoomList m entries).mono fun _ => hdirectory
    · exact (aside_self m).mono False.elim
  | ack info => exact aside_onAck m info
  | rankOrder users => exact ⟨rfl, fun _ => rfl, rfl⟩
  | deadUser user => exact aside_onDeadUser m user
  | bye => exact aside_onBye m id
  | leaderVote => exact aside_onVote m
  | leader => exact aside_onLeader m id sender
  | chat | hostRoom | requestRoomList | process | queue | hostUpdated | sealed => exact aside_self m

theorem aside_received {id : ConnectionId} {e : Envelope} (h : ∀ stamp text, e.message ≠ .chat stamp text) :
    m.Aside (m.Resets (.received id e)) (m.onMessage id e) := by
  have hreport : Effect.chats [.notify (.messageReceived (m.peers.get? id) e.message)] = [] := by
    cases hm : e.message with
    | chat stamp text => exact absurd hm (h stamp text)
    | _ => rfl
  unfold onMessage
  dsimp only
  split
  · rename_i hm
    exact absurd hm (h _ _)
  · exact (aside_act m id e).prepend _ hreport

/-! ## What one input does -/

/-- What an input does about chat, by the lines that come, those that the listener is told of, and how many are sent. -/
inductive Exchange (m : Member) (p : Prop) (m' : Member) : List Waiting → List Waiting → Nat → Prop
  /-- It is about something else. -/
  | aside (hp : m'.pending = m.pending) (hc : ¬ p → m'.clock = m.clock) : Exchange m p m' [] [] 0
  /-- The member sends a line. -/
  | sends (hp : m'.pending = m.pending) (hc : m'.clock = m.clock.stamp.2) : Exchange m p m' [] [] 1
  /-- A line that comes is taken up. -/
  | takes (e : Waiting) (hp : m'.pending = m.pending) (hc : m'.clock = .synced (Clock.next (m.clock.time?.getD e.1))) :
    Exchange m p m' [e] [e] 0
  /-- A line that comes waits. -/
  | defers (e : Waiting) (hp : m'.pending = m.pending.push e.1 e.2) (hc : m'.clock = .synced (m.clock.time?.getD e.1)) :
    Exchange m p m' [e] [] 0
  /-- The member looks at what waits. -/
  | looks (hp : m'.pending = (m.pending.drain m.clock).2.1) (hc : m'.clock = (m.pending.drain m.clock).2.2) :
    Exchange m p m' [] (m.pending.drain m.clock).1 0

theorem Aside.exchange (h : m.Aside p x) : m.Exchange p x.1 [] (Effect.lines x.2) (Effect.said x.2) := by
  rw [Effect.lines_of_chats_eq_nil h.chats, Effect.said_of_chats_eq_nil h.chats]
  exact .aside h.pending h.clock

theorem exchange_onChat (m : Member) (p : Prop) (sender : Option Identity) (stamp : UInt64) (text : String) :
    m.Exchange p (m.onChat sender stamp (.chat stamp text)).1 [(stamp, sender, .chat stamp text)]
      (Effect.lines (m.onChat sender stamp (.chat stamp text)).2)
      (Effect.said (m.onChat sender stamp (.chat stamp text)).2) := by
  unfold onChat Clock.observe
  dsimp only
  by_cases h : stamp > m.clock.time?.getD stamp
  · rw [if_pos h]
    exact .defers (stamp, sender, .chat stamp text) rfl rfl
  · rw [if_neg h]
    exact .takes (stamp, sender, .chat stamp text) rfl rfl

theorem exchange_poll (p : Prop) (hw : ∀ e ∈ m.pending.entries, ∃ text, e.2.2 = .chat e.1 text) :
    m.Exchange p m.poll.1 [] (Effect.lines m.poll.2) (Effect.said m.poll.2) := by
  have hready : ∀ e ∈ (m.pending.drain m.clock).1, ∃ text, e.2.2 = .chat e.1 text := fun e he =>
    hw e (m.pending.drain_append m.clock ▸ List.mem_append_left _ he)
  have hlines : Effect.lines m.poll.2 = (m.pending.drain m.clock).1 := Hearing.lines_map_notify hready
  have hsaid : Effect.said m.poll.2 = 0 := by
    refine List.countP_eq_zero.2 fun e he => ?_
    obtain ⟨d, -, rfl⟩ := List.mem_map.1 he
    exact Bool.false_ne_true
  rw [hlines, hsaid]
  exact .looks rfl rfl

/-- **What one input does about chat**, if what waits are lines. -/
theorem exchange_after (hw : ∀ e ∈ m.pending.entries, ∃ text, e.2.2 = .chat e.1 text) {i : Input} (hi : i ≠ .leave) :
    m.Exchange (m.Resets i) (m.after i) (m.incoming? i).toList (Effect.lines (m.effectsOf i))
      (Effect.said (m.effectsOf i)) := by
  cases i with
  | leave => exact absurd rfl hi
  | join k =>
    rw [effectsOf_join, after_join]
    split <;> exact .aside rfl fun h => absurd trivial h
  | abortJoin => exact .aside rfl fun _ => rfl
  | chat text =>
    rw [effectsOf_chat, after_chat]
    split
    · exact .sends rfl rfl
    · exact .aside rfl fun _ => rfl
  | poll => exact exchange_poll _ hw
  | connected id role => exact (aside_onConnected m id role).exchange
  | connectFailed role => exact (aside_onConnectFailed m role).exchange
  | closed id => exact ((aside_onClosed m id).mono False.elim).exchange
  | received id e =>
    obtain ⟨sender, message⟩ := e
    cases message with
    | chat stamp text => exact exchange_onChat m _ (m.peers.get? id) stamp text
    | _ =>
      refine (aside_received ?_).exchange
      rintro _ _ ⟨⟩

variable {m' : Member} {arrived told : List Waiting} {said : Nat}

/-- What waited and what comes is told of or waits. -/
theorem Exchange.perm (x : m.Exchange p m' arrived told said) :
    (told ++ m'.pending.entries).Perm (m.pending.entries ++ arrived) := by
  cases x with
  | aside hp _ | sends hp _ => rw [hp, List.append_nil, List.nil_append]
  | takes e hp _ =>
    rw [hp]
    exact List.perm_append_comm
  | defers e hp _ =>
    rw [hp]
    exact Pending.perm_insertEntry e.1 e.2 m.pending.entries
  | looks hp _ => rw [hp, m.pending.drain_append, List.append_nil]

/-- The clock counts the lines that are sent or told of. -/
theorem Exchange.clock {now : UInt64} (x : m.Exchange p m' arrived told said) (hn : ¬ p) (hc : m.clock = .synced now) :
    ∃ now', m'.clock = .synced now' ∧ now'.toNat = min (now.toNat + said + told.length) (UInt64.size - 1) := by
  have hlt := now.toNat_lt_size
  cases x with
  | aside _ hsame => exact ⟨now, (hsame hn).trans hc, by rw [List.length_nil]; omega⟩
  | sends _ hstamp => exact ⟨Clock.next now, by rw [hstamp, hc]; rfl, Clock.toNat_next now⟩
  | takes e _ htake => exact ⟨Clock.next now, by rw [htake, hc]; rfl, Clock.toNat_next now⟩
  | defers e _ hdefer => exact ⟨now, by rw [hdefer, hc]; rfl, by rw [List.length_nil]; omega⟩
  | looks _ hdrain =>
    rw [hc] at hdrain ⊢
    exact ⟨_, hdrain, Pending.toNat_drainEntries now m.pending.entries⟩

end Member

/-! ## Runs -/

namespace Hearing

variable {h : Hearing} {i : Member.Input} {is : List Member.Input}

/-- A member to whom no line has come yet. -/
def start (m : Member) : Hearing := ⟨m, [], []⟩

/-- What inputs make of a hearing, one after the other. -/
def run (h : Hearing) (is : List Member.Input) : Hearing := is.foldl next h

theorem member_run (h : Hearing) (is : List Member.Input) : (h.run is).member = h.member.run is := by
  induction is generalizing h with
  | nil => rfl
  | cons i is ih => exact ih (h.next i)

theorem run_concat (h : Hearing) (is : List Member.Input) (i : Member.Input) : h.run (is ++ [i]) = (h.run is).next i :=
  List.foldl_append

/-- What has come are lines, each of which has been told of once or waits once. -/
structure Complete (h : Hearing) : Prop where
  lines : ∀ e ∈ h.arrived, ∃ text, e.2.2 = .chat e.1 text
  all : (h.told ++ h.member.pending.entries).Perm h.arrived

theorem Complete.waiting (c : h.Complete) : ∀ e ∈ h.member.pending.entries, ∃ text, e.2.2 = .chat e.1 text :=
  fun e he => c.lines e (c.all.subset (List.mem_append_right _ he))

theorem complete_start {m : Member} (hp : m.pending = .empty) : (start m).Complete := by
  refine ⟨nofun, ?_⟩
  show ([] ++ m.pending.entries).Perm []
  rw [hp]
  rfl

theorem Complete.next (c : h.Complete) (hi : i ≠ .leave) : (h.next i).Complete := by
  refine ⟨fun e he => ?_, ?_⟩
  · rcases List.mem_append.1 he with he | he
    · exact c.lines e he
    · unfold Member.incoming? at he
      split at he
      · obtain rfl := List.mem_singleton.1 he
        exact ⟨_, rfl⟩
      · cases he
  · have hstep := (Member.exchange_after c.waiting hi).perm.append_left h.told
    rw [← List.append_assoc, ← List.append_assoc] at hstep
    exact hstep.trans (c.all.append_right _)

theorem Complete.run (c : h.Complete) (hl : .leave ∉ is) : (h.run is).Complete := by
  induction is generalizing h with
  | nil => exact c
  | cons i is ih =>
    have hi : i ≠ .leave := fun he => hl (he ▸ List.mem_cons_self)
    exact ih (c.next hi) fun hmem => hl (List.mem_cons_of_mem i hmem)

/-- As long as nothing sets it, the clock counts. -/
theorem counted {m : Member} {t : UInt64} (hp : m.pending = .empty) (hc : m.clock = .synced t) (hl : .leave ∉ is)
    (hn : ∀ past i rest, is = past ++ i :: rest → ¬ (m.run past).Resets i) :
    ∃ now, ((start m).run is).member.clock = .synced now ∧
      now.toNat = min (t.toNat + m.sends is + ((start m).run is).told.length) (UInt64.size - 1) := by
  -- from the end, since whether the last input sets the clock is up to the member that the others leave
  induction is using List.reverseRecOn with
  | nil =>
    have hlt := t.toNat_lt_size
    refine ⟨t, hc, ?_⟩
    show t.toNat = min (t.toNat + 0 + 0) (UInt64.size - 1)
    omega
  | append_singleton past i ih =>
    have hi : i ≠ .leave := fun he => hl (he ▸ List.mem_append_right past (List.mem_singleton_self i))
    have hpast : .leave ∉ past := fun hmem => hl (List.mem_append_left [i] hmem)
    obtain ⟨now, hnow, hcount⟩ := ih hpast fun before j rest he =>
      hn before j (rest ++ [i]) (by rw [he, List.append_assoc, List.cons_append])
    have hmember : ((start m).run past).member = m.run past := member_run (start m) past
    have x := Member.exchange_after ((complete_start hp).run hpast).waiting hi
    rw [hmember] at x hnow
    obtain ⟨now', hnow', hcount'⟩ := x.clock (hn past i [] rfl) hnow
    have htold : ((start m).run (past ++ [i])).told.length =
        ((start m).run past).told.length + (Effect.lines ((m.run past).effectsOf i)).length := by
      rw [run_concat, ← hmember]
      exact List.length_append
    have hsends : m.sends (past ++ [i]) = m.sends past + Effect.said ((m.run past).effectsOf i) := m.sends_append past [i]
    refine ⟨now', ?_, ?_⟩
    · rw [run_concat, ← hnow', ← hmember]
      rfl
    · rw [htold, hsends, hcount', hcount]
      omega

/-- **No line is lost, none is told of twice, and the clock counts.** A member for whom nothing waits is given any inputs but
to leave. The lines that have come, each with the one who sent it as the member then knew that one, are those that the
listener has been told of together with those that wait. If the clock has a time at the start and no input sets it, it has
moved on once for each line that the member has sent or the listener been told of, up to the largest time. All this holds
of whatever inputs there have been so far, and so at every point of a run. -/
theorem lines_accounted {m : Member} (hp : m.pending = .empty) {is : List Member.Input} (hl : .leave ∉ is) :
    let h := (start m).run is
    (h.told ++ h.member.pending.entries).Perm h.arrived ∧
      ∀ t, m.clock = .synced t → (∀ past i rest, is = past ++ i :: rest → ¬ (m.run past).Resets i) →
        ∃ now, h.member.clock = .synced now ∧
          now.toNat = min (t.toNat + m.sends is + h.told.length) (UInt64.size - 1) :=
  ⟨((complete_start hp).run hl).all, fun _ hc hn => counted hp hc hl hn⟩

/-- A line waits while the one who sent it goes, and still is told of as that one's. Another line comes from nobody that is
known. The member sends a line at last. -/
theorem lines_accounted_departed :
    let is : List Member.Input := [bobSays 1 "a", .closed 1, bobSays 0 "b", .poll, .chat "x"]
    let h := (start quietMember).run is
    h.arrived = [bobs 1 "a", (0, none, .chat 0 "b")] ∧ h.told = [(0, none, .chat 0 "b"), bobs 1 "a"] ∧
      (h.told ++ h.member.pending.entries).Perm h.arrived ∧ quietMember.sends is = 1 ∧
      ∃ now, h.member.clock = .synced now ∧ now.toNat = min (0 + 1 + 2) (UInt64.size - 1) := by
  intro is h
  have hl : Member.Input.leave ∉ is := by decide
  obtain ⟨hall, hclock⟩ := lines_accounted (show quietMember.pending = .empty from rfl) hl
  have hquiet : ∀ i ∈ is, ∀ m : Member, ¬ m.Resets i := by
    simp [is, bobSays, Member.Resets]
  have hnone : ∀ past i rest, is = past ++ i :: rest → ¬ (quietMember.run past).Resets i := fun past i rest he =>
    hquiet i (he ▸ List.mem_append_right past List.mem_cons_self) _
  have htold : h.told = [(0, none, .chat 0 "b"), bobs 1 "a"] := by decide
  have hsends : quietMember.sends is = 1 := by decide
  obtain ⟨now, hnow, hcount⟩ := hclock 0 rfl hnone
  refine ⟨by decide, htold, hall, hsends, now, hnow, ?_⟩
  rw [hcount, hsends]
  exact congrArg (fun told => min (0 + 1 + List.length told) (UInt64.size - 1)) htold

end Hearing
end Parley

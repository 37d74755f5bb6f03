import Mathlib.Data.List.Nodup
import Mathlib.Logic.Relation
import Parley.Proofs.Member.Admission
import Parley.Proofs.Room.Mesh

/-!
# Rooms that people come to

Connections are not there from the start in a `Gathering`: members open them one by one, and each end numbers them as it
likes, with numbers that it has not used. A `Step` opens a connection that somebody has asked for, or delivers a message;
messages to one end of a connection arrive in the order in which they were sent.

Here stands what such a network does, whoever its members are: a message that is sent on a connection is the last one that
the other end has yet to receive (`mailbox_input`).
-/

namespace Parley

variable {n : Nat}

/-- The key of a room, and who the people are that come to it. -/
structure Party (n : Nat) where
  key : RoomKey
  user : Fin n → Identity
  addr_injective : Function.Injective fun i => (user i).addr

/-- The one that listens at an address. -/
def Party.listener? (P : Party n) (addr : SocketAddress) : Option (Fin n) :=
  (List.finRange n).find? fun j => SocketAddress.v4 (P.user j).addr = addr

/-- One end of a connection: a member, and the number under which it keeps the connection. -/
@[ext]
structure Terminal (n : Nat) where
  member : Fin n
  id : ConnectionId
  deriving DecidableEq, Repr

/-- A connection, with the end of the member that opened it and the end of the one that it was opened to. -/
structure Wire (n : Nat) where
  caller : Terminal n
  callee : Terminal n
  deriving DecidableEq, Repr

/-- A connection that a member has asked for and that is not open yet. -/
structure Dial (n : Nat) where
  caller : Fin n
  callee : Fin n
  role : Role
  deriving DecidableEq, Repr

/-- A message on its way to one end of a connection. -/
structure Letter (n : Nat) where
  target : Terminal n
  envelope : Envelope
  deriving DecidableEq, Repr

/-- A moment of a gathering: the members, what each has told its listener, the connections, those that have been asked for,
the messages on their way, and the ends that somebody has hung up at. -/
structure Gathering (n : Nat) where
  member : Fin n → Member
  told : Fin n → List Event
  wires : List (Wire n)
  dials : List (Dial n)
  flight : List (Letter n)
  hungUp : List (Terminal n)

/-- The connection that comes of a request, with the numbers that its ends give it. -/
def Dial.wire (d : Dial n) (k l : ConnectionId) : Wire n := ⟨⟨d.caller, k⟩, ⟨d.callee, l⟩⟩

/-- The other end of a connection. -/
def Wire.far? (w : Wire n) (e : Terminal n) : Option (Terminal n) :=
  if w.caller = e then some w.callee else if w.callee = e then some w.caller else none

namespace Gathering

/-- The other end of the connection that ends in `e`. -/
def far? (s : Gathering n) (e : Terminal n) : Option (Terminal n) := s.wires.findSome? fun w => w.far? e

/-- The ends of the connections. -/
def ends (s : Gathering n) : List (Terminal n) := s.wires.map Wire.caller ++ s.wires.map Wire.callee

/-- The messages that member `i` puts on their way. -/
def post (s : Gathering n) (i : Fin n) (m : Member) (effects : List Effect) : List (Letter n) :=
  (m.outgoing effects).filterMap fun o => (s.far? ⟨i, o.1⟩).map fun e => ⟨e, ⟨m.me.addr, o.2⟩⟩

/-- The connections that member `i` asks for. Where nobody listens there is nobody to connect to. -/
def calls (P : Party n) (i : Fin n) (effects : List Effect) : List (Dial n) :=
  effects.filterMap fun
    | .connect addr role => (P.listener? addr).map fun j => ⟨i, j, role⟩
    | .send _ _ | .disconnect _ | .notify _ => none

/-- The ends that member `i` hangs up at. -/
def hangUps (i : Fin n) (effects : List Effect) : List (Terminal n) :=
  effects.filterMap fun
    | .disconnect id => some ⟨i, id⟩
    | .send _ _ | .connect _ _ | .notify _ => none

/-- Gives an input to member `i`, and carries out what comes of it. -/
def input (P : Party n) (s : Gathering n) (i : Fin n) (x : Member.Input) : Gathering n where
  member := Function.update s.member i ((s.member i).after x)
  told := Function.update s.told i (s.told i ++ Effect.events ((s.member i).effectsOf x))
  wires := s.wires
  dials := s.dials ++ calls P i ((s.member i).effectsOf x)
  flight := s.flight ++ s.post i ((s.member i).after x) ((s.member i).effectsOf x)
  hungUp := s.hungUp ++ hangUps i ((s.member i).effectsOf x)

/-- The gathering with one more connection, of which nobody knows yet. -/
def wired (s : Gathering n) (w : Wire n) (rest : List (Dial n)) : Gathering n :=
  { s with dials := rest, wires := s.wires ++ [w] }

/-- The gathering once a connection is open that was asked for. -/
def connect (P : Party n) (s : Gathering n) (d : Dial n) (k l : ConnectionId) (rest : List (Dial n)) : Gathering n :=
  input P (s.wired (d.wire k l) rest) d.caller (.connected k d.role)

/-- The gathering once a message has arrived. -/
def deliver (P : Party n) (s : Gathering n) (p : Letter n) (rest : List (Letter n)) : Gathering n :=
  input P { s with flight := rest } p.target.member (.received p.target.id p.envelope)

/-- What happens in a gathering, one thing at a time. A connection is opened under new numbers, and the one that opened it is
told; a message arrives, the first of those to its end; or a member is told that the other one has hung up, after all
messages to it have arrived. -/
inductive Step (P : Party n) : Gathering n → Gathering n → Prop
  | connect (s : Gathering n) (d : Dial n) (k l : ConnectionId) (before after : List (Dial n))
      (hd : s.dials = before ++ d :: after) (hk : (d.wire k l).caller ∉ s.ends) (hl : (d.wire k l).callee ∉ s.ends) :
      Step P s (s.connect P d k l (before ++ after))
  | deliver (s : Gathering n) (p : Letter n) (before after : List (Letter n))
      (hf : s.flight = before ++ p :: after) (hb : ∀ q ∈ before, q.target ≠ p.target) :
      Step P s (s.deliver P p (before ++ after))
  | close (s : Gathering n) (e e' : Terminal n) (he : e ∈ s.hungUp) (hw : s.far? e = some e')
      (hf : ∀ q ∈ s.flight, q.target ≠ e') :
      Step P s (input P { s with hungUp := s.hungUp.erase e } e'.member (.closed e'.id))

/-- The host is alone in its room, and everybody else has entered the room of the same key and asked for a connection to the
host. -/
structure Opening (P : Party n) (host : Fin n) (s : Gathering n) : Prop where
  me : (s.member host).me = P.user host
  key : (s.member host).key = some P.key
  isHost : (s.member host).isHost = true
  follows : (s.member host).host = some (P.user host).addr
  peers : (s.member host).peers = .empty
  ranking : (s.member host).ranking = .alone (P.user host)
  guest : ∀ i, i ≠ host → ∃ addr, (Member.outside (P.user i) addr).beginJoin P.key = .ok (s.member i)
  told : ∀ i, s.told i = []
  wires : s.wires = []
  dials : s.dials.Perm ((Mesh.others host).map fun i => ⟨i, host, .roomHost (P.user host)⟩)
  flight : s.flight = []
  hungUp : s.hungUp = []

/-- No message is on its way, and no connection that was asked for is still to be opened. -/
def Quiet (s : Gathering n) : Prop := s.flight = [] ∧ s.dials = []

instance (s : Gathering n) : Decidable s.Quiet := inferInstanceAs (Decidable (_ ∧ _))

end Gathering

/-- Whose greetings a member has received, in order, by what it has told its listener. -/
def Event.greetings (told : List Event) : List Identity :=
  told.filterMap fun
    | .messageReceived _ (.hello u) => some u
    | _ => none

namespace Gathering

/-- Everybody has met everybody: each table leads to each other member once, and the two entries of two members are the ends
of one connection. Everybody ranks all, each once, the host itself first and then the newcomers as it has greeted them.
Everybody follows the host, and nobody else is host or has hung up. -/
structure Settled (P : Party n) (host : Fin n) (s : Gathering n) : Prop where
  peers : ∀ i, (s.member i).peers.users.Perm ((Mesh.others i).map P.user)
  paired : ∀ i j id, (s.member i).peers.get? id = some (P.user j) →
    ∃ id', (s.member j).peers.get? id' = some (P.user i) ∧ s.far? ⟨i, id⟩ = some ⟨j, id'⟩
  ranking : ∀ i, ((s.member i).ranking.users.map Identity.addr).Perm ((List.finRange n).map fun j => (P.user j).addr)
  order : (s.member host).ranking.users = P.user host :: Event.greetings (s.told host)
  follows : ∀ i, (s.member i).host = some (P.user host).addr
  isHost : ∀ i, (s.member i).isHost = true ↔ i = host
  hungUp : s.hungUp = []

end Gathering

/-! ## Effects -/

theorem Party.user_injective (P : Party n) : Function.Injective P.user := fun _ _ h =>
  P.addr_injective (congrArg Identity.addr h)

theorem Party.listener?_user (P : Party n) (j : Fin n) : P.listener? (.v4 (P.user j).addr) = some j := by
  refine find?_eq_some_of_unique (List.mem_finRange j) (by simp) fun k _ hk => ?_
  have hv : SocketAddress.v4 (P.user k).addr = .v4 (P.user j).addr := of_decide_eq_true hk
  exact P.addr_injective (SocketAddress.v4.inj hv)

/-- The messages that effects send on a connection, in order. -/
def Member.mail (m : Member) (effects : List Effect) (id : ConnectionId) : List Message :=
  (m.outgoing effects).filterMap fun o => if o.1 = id then some o.2 else none

namespace Member

variable {m : Member} {id k : ConnectionId}

@[simp] theorem mail_append (es fs : List Effect) : m.mail (es ++ fs) id = m.mail es id ++ m.mail fs id := by
  simp [mail, outgoing]

@[simp] theorem outgoing_append (es fs : List Effect) : m.outgoing (es ++ fs) = m.outgoing es ++ m.outgoing fs := by
  simp [outgoing]

@[simp] theorem outgoing_notify (e : Event) (es : List Effect) : m.outgoing (.notify e :: es) = m.outgoing es := rfl

@[simp] theorem outgoing_map_notify (news : List Event) : m.outgoing (news.map .notify) = [] := by
  induction news with
  | nil => rfl
  | cons e news ih => exact ih

@[simp] theorem outgoing_nil : m.outgoing [] = [] := rfl

@[simp] theorem outgoing_connection (message : Message) (es : List Effect) :
    m.outgoing (.send (.connection k) message :: es) = (k, message) :: m.outgoing es := rfl

/-- What is sent to all but one goes to each of the others once. -/
theorem mail_allPeersExcept (hn : m.peers.ids.Nodup) (message : Message) :
    m.mail [.send (.allPeersExcept k) message] id = if id ∈ m.peers.ids ∧ id ≠ k then [message] else [] := by
  have hout : m.outgoing [.send (.allPeersExcept k) message] =
      (m.peers.ids.filter (· ≠ k)).map fun id => (id, message) := by
    simp [outgoing, resolve]
  have hmap (l : List ConnectionId) : (l.map fun j => (j, message)).filterMap
      (fun o => if o.1 = id then some o.2 else none) = (l.filter (· = id)).map fun _ => message := by
    induction l with
    | nil => rfl
    | cons j l ih => by_cases hj : j = id <;> simp [hj, ih]
  rw [mail, hout, hmap, List.filter_eq, List.map_replicate]
  by_cases hid : id ∈ m.peers.ids ∧ id ≠ k
  · rw [if_pos hid, List.count_eq_one_of_mem (hn.filter _) (by simpa using hid), List.replicate_one]
  · rw [if_neg hid, List.count_eq_zero_of_not_mem (by simpa using hid), List.replicate_zero]

/-- What a host sends when it admits a member. -/
theorem mail_admission (hn : m.peers.ids.Nodup) (m₀ : Member) (u : Identity) :
    m.mail (m₀.admission k u) id = (if id ∈ m.peers.ids ∧ id ≠ k then [.userInfo u] else []) ++
      if id = k then [.hello m₀.me, .rankOrder (m₀.ranking.push u).users, .ack (m₀.roomToken.getD "")] else [] := by
  rw [admission, ← List.singleton_append, mail_append, mail_allPeersExcept hn]
  congr 1
  by_cases hid : id = k
  · simp [mail, hid]
  · simp [mail, hid, Ne.symm hid]

end Member

/-! ## The network -/

namespace Gathering

/-- The messages that one end of a connection has yet to receive, in order. -/
def mailbox (s : Gathering n) (e : Terminal n) : List Message :=
  (s.flight.filter (·.target = e)).map fun p => p.envelope.message

variable {s : Gathering n} {e e' : Terminal n} {w : Wire n}

theorem caller_mem_ends (hw : w ∈ s.wires) : w.caller ∈ s.ends := List.mem_append_left _ (List.mem_map_of_mem hw)

theorem callee_mem_ends (hw : w ∈ s.wires) : w.callee ∈ s.ends := List.mem_append_right _ (List.mem_map_of_mem hw)

theorem mem_ends : e ∈ s.ends ↔ ∃ w ∈ s.wires, w.caller = e ∨ w.callee = e := by
  simp only [ends, List.mem_append, List.mem_map, and_or_left, exists_or]

section Ends

variable (hn : s.ends.Nodup) {w' : Wire n}
include hn

theorem eq_of_caller (hw : w ∈ s.wires) (hw' : w' ∈ s.wires) (h : w.caller = w'.caller) : w = w' :=
  List.inj_on_of_nodup_map (List.nodup_append.1 hn).1 hw hw' h

theorem eq_of_callee (hw : w ∈ s.wires) (hw' : w' ∈ s.wires) (h : w.callee = w'.callee) : w = w' :=
  List.inj_on_of_nodup_map (List.nodup_append.1 hn).2.1 hw hw' h

theorem caller_ne_callee (hw : w ∈ s.wires) (hw' : w' ∈ s.wires) : w.caller ≠ w'.callee :=
  (List.nodup_append.1 hn).2.2 _ (List.mem_map_of_mem hw) _ (List.mem_map_of_mem hw')

omit hn in
theorem exists_of_far? (h : s.far? e = some e') :
    ∃ w ∈ s.wires, w.caller = e ∧ w.callee = e' ∨ w.callee = e ∧ w.caller = e' := by
  obtain ⟨w, hw, hf⟩ := List.exists_of_findSome?_eq_some h
  refine ⟨w, hw, ?_⟩
  unfold Wire.far? at hf
  split at hf
  · exact .inl ⟨‹_›, Option.some.inj hf⟩
  · split at hf
    · exact .inr ⟨‹_›, Option.some.inj hf⟩
    · cases hf

theorem far?_caller (hw : w ∈ s.wires) : s.far? w.caller = some w.callee := by
  cases h : s.far? w.caller with
  | none => simpa [Wire.far?] using List.findSome?_eq_none_iff.1 h w hw
  | some e =>
    obtain ⟨w', hw', ⟨hc, rfl⟩ | ⟨hc, -⟩⟩ := exists_of_far? h
    · rw [eq_of_caller hn hw' hw hc]
    · exact absurd hc.symm (caller_ne_callee hn hw hw')

theorem far?_callee (hw : w ∈ s.wires) : s.far? w.callee = some w.caller := by
  cases h : s.far? w.callee with
  | none => simpa [Wire.far?, caller_ne_callee hn hw hw] using List.findSome?_eq_none_iff.1 h w hw
  | some e =>
    obtain ⟨w', hw', ⟨hc, -⟩ | ⟨hc, rfl⟩⟩ := exists_of_far? h
    · exact absurd hc (caller_ne_callee hn hw' hw)
    · rw [eq_of_callee hn hw' hw hc]

theorem far?_comm (h : s.far? e = some e') : s.far? e' = some e := by
  obtain ⟨w, hw, ⟨rfl, rfl⟩ | ⟨rfl, rfl⟩⟩ := exists_of_far? h
  · exact far?_callee hn hw
  · exact far?_caller hn hw

/-- What a member posts to an end of a connection is what it sends on that connection, if it has the other end. -/
theorem map_filter_post (h : s.far? e' = some e) (i : Fin n) (m : Member) (es : List Effect) :
    ((s.post i m es).filter (·.target = e')).map (fun p => p.envelope.message) =
      if e.member = i then m.mail es e.id else [] := by
  have hend : ∀ o : ConnectionId × Message,
      (((s.far? ⟨i, o.1⟩).map fun e => (⟨e, ⟨m.me.addr, o.2⟩⟩ : Letter n)).filter (·.target = e')).map
        (fun p => p.envelope.message) = if ⟨i, o.1⟩ = e then some o.2 else none := by
    intro o
    by_cases ho : ⟨i, o.1⟩ = e
    · rw [if_pos ho, ho, far?_comm hn h]
      simp [Option.filter]
    · rw [if_neg ho]
      cases hf : s.far? ⟨i, o.1⟩ with
      | none => rfl
      | some e'' =>
        have hne : e'' ≠ e' := by
          rintro rfl
          exact ho (Option.some.inj ((far?_comm hn hf).symm.trans h))
        simp [Option.filter, hne]
  rw [post, List.filter_filterMap, List.map_filterMap, List.filterMap_congr fun o _ => hend o]
  split
  · rename_i hi
    subst hi
    refine List.filterMap_congr fun o _ => ?_
    obtain ⟨j, k⟩ := e
    simp
  · rename_i hi
    refine List.filterMap_eq_nil_iff.2 fun o _ => if_neg ?_
    rintro rfl
    exact hi rfl

end Ends

theorem mem_ends_of_post {i : Fin n} {m : Member} {es : List Effect} {p : Letter n} (h : p ∈ s.post i m es) :
    p.target ∈ s.ends := by
  obtain ⟨o, -, ho⟩ := List.mem_filterMap.1 h
  obtain ⟨e, he, rfl⟩ := Option.map_eq_some_iff.1 ho
  obtain ⟨w, hw, ⟨-, rfl⟩ | ⟨-, rfl⟩⟩ := exists_of_far? he
  · exact callee_mem_ends hw
  · exact caller_mem_ends hw

/-! ## Inputs and arrivals -/

section Input

variable {P : Party n} {i j : Fin n} {x : Member.Input} {m : Member} {es : List Effect}

theorem input_member_self (h : (s.member i).step x = .ok (m, es)) : (s.input P i x).member i = m := by
  simp [input, Member.after, h]

theorem input_member_of_ne (h : j ≠ i) : (s.input P i x).member j = s.member j := by simp [input, h]

theorem input_told_self (h : (s.member i).step x = .ok (m, es)) :
    (s.input P i x).told i = s.told i ++ Effect.events es := by
  simp [input, Member.effectsOf, h]

theorem input_told_of_ne (h : j ≠ i) : (s.input P i x).told j = s.told j := by simp [input, h]

theorem input_dials (h : (s.member i).step x = .ok (m, es)) : (s.input P i x).dials = s.dials ++ calls P i es := by
  simp [input, Member.effectsOf, h]

theorem input_hungUp (h : (s.member i).step x = .ok (m, es)) : (s.input P i x).hungUp = s.hungUp ++ hangUps i es := by
  simp [input, Member.effectsOf, h]

theorem input_flight (h : (s.member i).step x = .ok (m, es)) :
    (s.input P i x).flight = s.flight ++ s.post i m es := by
  simp [input, Member.effectsOf, Member.after, h]

/-- What is sent on a connection is the last that the other end has yet to receive. -/
theorem mailbox_input (hn : s.ends.Nodup) (h : (s.member i).step x = .ok (m, es)) (he : s.far? e' = some e) :
    (s.input P i x).mailbox e' = s.mailbox e' ++ if e.member = i then m.mail es e.id else [] := by
  rw [mailbox, input_flight h, List.filter_append, List.map_append, map_filter_post hn he]
  rfl

end Input

section Arrival

variable {p : Letter n} {before after : List (Letter n)}

/-- The message that arrives is the first one in its mailbox. -/
theorem mailbox_target (hf : s.flight = before ++ p :: after) (hb : ∀ q ∈ before, q.target ≠ p.target) :
    s.mailbox p.target = p.envelope.message :: mailbox { s with flight := before ++ after } p.target := by
  have hnil : before.filter (·.target = p.target) = [] :=
    List.filter_eq_nil_iff.2 fun q hq => by simpa using hb q hq
  simp [mailbox, hf, hnil]

/-- The other mailboxes stay as they are. -/
theorem mailbox_of_ne (hf : s.flight = before ++ p :: after) (he : e ≠ p.target) :
    mailbox { s with flight := before ++ after } e = s.mailbox e := by
  simp [mailbox, hf, Ne.symm he]

end Arrival

/-- No letters, no messages. -/
theorem mailbox_eq_nil (h : ∀ p ∈ s.flight, p.target ≠ e) : s.mailbox e = [] := by
  rw [mailbox, List.map_eq_nil_iff, List.filter_eq_nil_iff]
  intro p hp
  simpa using h p hp

/-- Nobody sends anything, so all mailboxes stay as they are. -/
theorem mailbox_input_of_silent {P : Party n} {i : Fin n} {x : Member.Input} {m : Member} {es : List Effect}
    (h : (s.member i).step x = .ok (m, es)) (he : m.outgoing es = []) (e : Terminal n) :
    (s.input P i x).mailbox e = s.mailbox e := by
  have hp : s.post i m es = [] := by simp [post, he]
  rw [mailbox, input_flight h, hp, List.append_nil]
  rfl

section Deliver

variable {P : Party n} {p : Letter n} {rest : List (Letter n)} {m : Member} {es : List Effect}
  (h : (s.member p.target.member).step (.received p.target.id p.envelope) = .ok (m, es))
include h

theorem deliver_member : (s.deliver P p rest).member p.target.member = m :=
  input_member_self (s := { s with flight := rest }) h

theorem deliver_told : (s.deliver P p rest).told p.target.member = s.told p.target.member ++ Effect.events es :=
  input_told_self (s := { s with flight := rest }) h

theorem deliver_dials : (s.deliver P p rest).dials = s.dials ++ calls P p.target.member es :=
  input_dials (s := { s with flight := rest }) h

theorem deliver_hungUp : (s.deliver P p rest).hungUp = s.hungUp ++ hangUps p.target.member es :=
  input_hungUp (s := { s with flight := rest }) h

end Deliver

/-- A message arrives, and nobody sends anything: one message less for its target. -/
theorem mailbox_deliver {P : Party n} {p : Letter n} {before after : List (Letter n)} {m : Member} {es : List Effect}
    (hf : s.flight = before ++ p :: after) (hb : ∀ q ∈ before, q.target ≠ p.target)
    (h : (s.member p.target.member).step (.received p.target.id p.envelope) = .ok (m, es)) (he : m.outgoing es = []) :
    s.mailbox p.target = p.envelope.message :: (s.deliver P p (before ++ after)).mailbox p.target ∧
      ∀ e, e ≠ p.target → (s.deliver P p (before ++ after)).mailbox e = s.mailbox e := by
  refine ⟨?_, fun e hne => ?_⟩
  · rw [deliver, mailbox_input_of_silent (s := { s with flight := before ++ after }) h he]
    exact mailbox_target hf hb
  · rw [deliver, mailbox_input_of_silent (s := { s with flight := before ++ after }) h he]
    exact mailbox_of_ne hf hne

/-- Arrivals put nothing where there is no connection. -/
theorem placed_deliver {P : Party n} {p : Letter n} {before after : List (Letter n)} {m : Member} {es : List Effect}
    (hf : s.flight = before ++ p :: after) (hplaced : ∀ q ∈ s.flight, q.target ∈ s.ends)
    (h : (s.member p.target.member).step (.received p.target.id p.envelope) = .ok (m, es)) :
    ∀ q ∈ (s.deliver P p (before ++ after)).flight, q.target ∈ (s.deliver P p (before ++ after)).ends := by
  intro q hq
  rw [deliver, input_flight (s := { s with flight := before ++ after }) h, List.mem_append] at hq
  rcases hq with hq | hq
  · refine hplaced q ?_
    rw [hf]
    exact (List.sublist_cons_self p after).append_left before |>.subset hq
  · exact mem_ends_of_post hq

/-! ## New connections -/

section Connect

variable {rest : List (Dial n)}

theorem perm_ends_wired (s : Gathering n) (w : Wire n) (rest : List (Dial n)) :
    (s.wired w rest).ends.Perm (w.caller :: w.callee :: s.ends) := by
  simp only [ends, wired, List.map_append, List.map_cons, List.map_nil, List.append_assoc, List.singleton_append]
  refine List.perm_middle.trans (List.Perm.cons _ ?_)
  rw [← List.append_assoc]
  exact List.perm_append_singleton _ _

theorem mem_ends_wired : e ∈ (s.wired w rest).ends ↔ e = w.caller ∨ e = w.callee ∨ e ∈ s.ends := by
  rw [(perm_ends_wired s w rest).mem_iff, List.mem_cons, List.mem_cons]

theorem nodup_ends_wired (hn : s.ends.Nodup) (hk : w.caller ∉ s.ends) (hl : w.callee ∉ s.ends)
    (hw : w.caller ≠ w.callee) : (s.wired w rest).ends.Nodup := by
  rw [(perm_ends_wired s w rest).nodup_iff]
  simp [hn, hk, hl, hw]

/-- The member that has opened a connection sends one message on it, and nobody else gets any. -/
theorem mailbox_connect {P : Party n} {d : Dial n} {k l : ConnectionId} {m : Member} {message : Message}
    {news : List Event} (hn : (s.wired (d.wire k l) rest).ends.Nodup)
    (hl : (d.wire k l).callee ∉ s.ends) (hplaced : ∀ p ∈ s.flight, p.target ∈ s.ends)
    (h : (s.member d.caller).step (.connected k d.role) =
      .ok (m, .send (.connection k) message :: news.map .notify)) :
    (s.connect P d k l rest).mailbox (d.wire k l).callee = [message] ∧
      ∀ e ∈ (s.wired (d.wire k l) rest).ends, e ≠ (d.wire k l).callee →
        (s.connect P d k l rest).mailbox e = s.mailbox e := by
  have hw : d.wire k l ∈ (s.wired (d.wire k l) rest).wires := by simp [wired]
  have hmail : ∀ id, m.mail (.send (.connection k) message :: news.map .notify) id = if k = id then [message] else [] := by
    intro id
    by_cases hid : k = id <;> simp [Member.mail, hid]
  refine ⟨?_, fun e he hne => ?_⟩
  · have hold : s.mailbox (d.wire k l).callee = [] := mailbox_eq_nil fun p hp ht => hl (ht ▸ hplaced p hp)
    have hto : (d.wire k l).caller.member = d.caller ∧ k = (d.wire k l).caller.id := ⟨rfl, rfl⟩
    rw [connect, mailbox_input hn h (far?_callee hn hw), if_pos hto.1, hmail, if_pos hto.2]
    exact congrArg (· ++ [message]) hold
  · obtain ⟨w', hw', hend⟩ := mem_ends.1 he
    have hmailbox : ∀ e', (s.wired (d.wire k l) rest).far? e = some e' → e' ≠ (d.wire k l).caller →
        (s.connect P d k l rest).mailbox e = s.mailbox e := by
      rintro ⟨i, id⟩ hfar hne'
      rw [connect, mailbox_input hn h hfar, hmail]
      have hnil : (if i = d.caller then if k = id then [message] else [] else []) = [] := by
        split
        · rename_i hi
          rw [if_neg]
          rintro rfl
          exact hne' (by rw [hi, Dial.wire])
        · rfl
      rw [hnil, List.append_nil]
      rfl
    have hother : ∀ e', (s.wired (d.wire k l) rest).far? e = some e' → e' ≠ (d.wire k l).caller := by
      rintro e' hfar rfl
      exact hne (Option.some.inj ((far?_comm hn hfar).symm.trans (far?_caller hn hw)))
    rcases hend with rfl | rfl
    · exact hmailbox _ (far?_caller hn hw') (hother _ (far?_caller hn hw'))
    · exact hmailbox _ (far?_callee hn hw') (hother _ (far?_callee hn hw'))

end Connect

end Gathering
end Parley

import Parley.Proofs.Directory.Honest
import Parley.Proofs.Directory.Rooms

/-!
# A relay over replicas that crash

Honest replicas that start with the same rooms may hang up whenever they like (`Mortal`). Seen through the relay they are still
one room map (`Relay.replicate_refines`): an operation has the result that the map gives as long as one replica lasts through
both phases, those that are left show the map, and nothing is left if and only if there is no result.

What carries this from one operation to the next is `Relay.Poised`: nothing waits to be read on any connection, all ledgers show
the map, and the operations that are still to come are new to them.
-/

namespace Parley.Directory

/-- What becomes of a frame at a replica that may hang up. -/
inductive Fate where
  /-- It is answered. -/
  | answers
  /-- The replica has hung up before it has read the frame. -/
  | gone
  /-- The replica does what the frame asks for, and hangs up without a reply. -/
  | mute
  /-- The replica hangs up after its reply. -/
  | leaves
  deriving DecidableEq, Repr

/-- An honest replica, and what becomes of the frames that reach it. -/
structure Mortal where
  replica : Honest
  fates : Nat → Fate

namespace Mortal

/-- What is left of the fates after a frame. -/
def later (x : Mortal) : Nat → Fate := fun n => x.fates (n + 1)

/-- What comes of a frame. -/
def react (x : Mortal) (f : Frame) : Mortal × Reaction :=
  let (replica, reaction) := x.replica.react f
  match x.fates 0 with
  | .answers => (⟨replica, x.later⟩, reaction)
  | .gone => (⟨x.replica, x.later⟩, ⟨[], true⟩)
  | .mute => (⟨replica, x.later⟩, ⟨[], true⟩)
  | .leaves => (⟨replica, x.later⟩, { reaction with hangsUp := true })

variable {x : Mortal} {f : Frame}

theorem react_of_replies {y : Honest} {octets : Bytes} (hreact : x.replica.react f = (y, ⟨octets, false⟩))
    (h : x.fates 0 = .answers ∨ x.fates 0 = .leaves) :
    x.react f = (⟨y, x.later⟩, ⟨octets, decide (x.fates 0 = .leaves)⟩) := by
  rcases h with h | h <;> simp [react, hreact, h]

theorem react_of_silent (f : Frame) (h : ¬ (x.fates 0 = .answers ∨ x.fates 0 = .leaves)) :
    ∃ y, x.react f = (y, ⟨[], true⟩) := by
  unfold react
  cases hfate : x.fates 0 with
  | answers => exact absurd (.inl hfate) h
  | leaves => exact absurd (.inr hfate) h
  | gone => exact ⟨_, rfl⟩
  | mute => exact ⟨_, rfl⟩

end Mortal

/-! ## One replica -/

theorem Operation.IsProper.isWireValid_queue {o : Operation} (h : o.IsProper) :
    (Message.queue o.id o.request).isWireValid = true := by
  obtain ⟨id, request⟩ := o
  obtain ⟨hvalid, hkind⟩ := h
  refine Message.isWireValid_queue hvalid ?_
  cases request
  case queue => exact hkind.elim
  all_goals simp [Message.kind?]

/-- The frames of an operation are within the limit: the request and any answer that the map may give. -/
structure RoomMap.Fits (m : RoomMap) (o : Operation) : Prop where
  request : (Message.queue o.id o.request).bodyBytes.length ≤ Frame.defaultLimit
  answer : ∀ answer, m.Answers o answer → (Message.queue o.id answer).bodyBytes.length ≤ Frame.defaultLimit

namespace ReplicaLink

/-- The replica lasts through both phases of the next operation. -/
def Lasts (l : ReplicaLink Mortal) : Prop :=
  l.isOpen = true ∧ l.far.fates 0 = .answers ∧ (l.far.fates 1 = .answers ∨ l.far.fates 1 = .leaves)

/-- A connection between two operations, with those that are still to come. -/
structure Ready (m : RoomMap) (ops : List Operation) (l : ReplicaLink Mortal) : Prop where
  unread : l.unread = []
  fresh : l.isOpen = true → l.far.replica.intake = .fresh
  rooms : l.far.replica.ledger.Shows m
  new : ∀ o ∈ ops, l.far.replica.ledger.completed.get? o.id = none

namespace Ready

variable {m : RoomMap} {o : Operation} {ops : List Operation} {l : ReplicaLink Mortal}

/-- The first phase at a replica that replies. -/
theorem exchange_queue (h : l.Ready m ops) (ho : o.IsProper)
    (hfit : (Message.queue o.id o.request).bodyBytes.length ≤ Frame.defaultLimit) (hopen : l.isOpen = true)
    (hfate : l.far.fates 0 = .answers ∨ l.far.fates 0 = .leaves) (sender : Endpoint) (attempts : Nat) :
    l.exchange Mortal.react sender (.queue o.id o.request) o.id (attempts + 1) =
      ({ l with far := ⟨l.far.replica.queued o, l.far.later⟩, isOpen := !decide (l.far.fates 0 = .leaves) },
        .answered (.process o.id)) := by
  have hreact := Honest.react_queue (s := sender) (h.fresh hopen) hfit ho.isWireValid_queue
  exact exchange_of_echo hfit h.unread hopen (Mortal.react_of_replies hreact hfate)

/-- A replica that lasts gives the answer of the map, and is ready for what comes next. -/
theorem operate_of_lasts (h : l.Ready m (o :: ops)) (ho : o.IsProper) (hm : m.NoneEmpty) (hfits : m.Fits o)
    (hids : ∀ p ∈ ops, p.id ≠ o.id) (hlasts : l.Lasts) (sender : Endpoint) (attempts : Nat) :
    ∃ l' answer, l.operate Mortal.react sender (attempts + 1) o = (l', .answered (.queue o.id answer)) ∧
      m.Answers o answer ∧ l'.Ready (m.after o) ops := by
  obtain ⟨hopen, hfirst, hsecond⟩ := hlasts
  obtain ⟨ledger, answer, hprocess, hrooms, hanswer, hkept⟩ := Ledger.process_queue h.rooms ho (h.new o List.mem_cons_self)
  obtain ⟨hvalid, hkind⟩ := hanswer.isWireValid hm
  have hread : Message.ofBody (Message.queue o.id answer).bodyBytes = .ok (.queue o.id answer) := by
    rw [Message.ofBody_bodyBytes_eq, Message.ofBodyChars_bodyChars (Message.isWireValid_queue hvalid hkind)]
  have hqueued := h.exchange_queue ho hfits.request hopen (.inl hfirst) sender attempts
  have hprocessed := Honest.react_process (x := l.far.replica.queued o) (s := sender) (h.fresh hopen) hprocess
    (hfits.answer answer hanswer)
  have hreact := Mortal.react_of_replies (x := ⟨l.far.replica.queued o, l.far.later⟩) hprocessed hsecond
  refine ⟨{ l with
      far := ⟨{ l.far.replica with ledger }, (Mortal.mk (l.far.replica.queued o) l.far.later).later⟩
      isOpen := !decide (l.far.fates 1 = .leaves) }, answer, ?_, hanswer, ?_⟩
  · rw [operate_of_answered hqueued]
    refine exchange_of_frame (fits_process o.id) h.unread ?_ hreact (hfits.answer answer hanswer) hread rfl
    simp [hfirst]
  · refine ⟨h.unread, fun _ => h.fresh hopen, hrooms, fun p hp => ?_⟩
    exact hkept p.id (hids p hp) (h.new p (List.mem_cons_of_mem o hp))

/-- A replica that does not last fails. -/
theorem operate_of_not_lasts (h : l.Ready m ops) (ho : o.IsProper)
    (hfit : (Message.queue o.id o.request).bodyBytes.length ≤ Frame.defaultLimit) (hlasts : ¬ l.Lasts) (sender : Endpoint)
    (attempts : Nat) : ∃ l' fault, l.operate Mortal.react sender (attempts + 1) o = (l', .failed fault) := by
  by_cases hopen : l.isOpen = true
  · by_cases hfate : l.far.fates 0 = .answers ∨ l.far.fates 0 = .leaves
    · rw [operate_of_answered (h.exchange_queue ho hfit hopen hfate sender attempts)]
      rcases hfate with hanswers | hleaves
      · have hsilent : ¬ (l.far.later 0 = .answers ∨ l.far.later 0 = .leaves) :=
          fun hsecond => hlasts ⟨hopen, hanswers, hsecond⟩
        obtain ⟨y, hreact⟩ := Mortal.react_of_silent (x := ⟨l.far.replica.queued o, l.far.later⟩)
          (Envelope.frame ⟨sender, .process o.id⟩) hsilent
        exact ⟨_, _, exchange_of_hangUp (fits_process o.id) h.unread (by simp [hanswers]) hreact⟩
      · exact ⟨_, _, exchange_of_closed (fits_process o.id) h.unread (by simp [hleaves])⟩
    · obtain ⟨y, hreact⟩ := Mortal.react_of_silent (Envelope.frame ⟨sender, .queue o.id o.request⟩) hfate
      exact ⟨_, _, operate_of_failed (exchange_of_hangUp hfit h.unread hopen hreact)⟩
  · rw [Bool.not_eq_true] at hopen
    exact ⟨_, _, operate_of_failed (exchange_of_closed hfit h.unread hopen)⟩

end Ready
end ReplicaLink

/-! ## All replicas -/

/-- The map after operations. -/
def RoomMap.afterAll (m : RoomMap) (ops : List Operation) : RoomMap := ops.foldl RoomMap.after m

/-- The frames of all operations are within the limit. -/
def RoomMap.FitsAll : RoomMap → List Operation → Prop
  | _, [] => True
  | m, o :: ops => m.Fits o ∧ (m.after o).FitsAll ops

namespace Relay

/-- A relay between two operations, with those that are still to come. -/
structure Poised (r : Relay Mortal) (m : RoomMap) (ops : List Operation) : Prop where
  ready : ∀ l ∈ r.replicas, l.Ready m ops
  ids : (ops.map Operation.id).Nodup
  proper : ∀ o ∈ ops, o.IsProper
  noneEmpty : m.NoneEmpty
  fits : m.FitsAll ops

namespace Poised

variable {r : Relay Mortal} {m : RoomMap} {o : Operation} {ops : List Operation}

theorem operate (h : r.Poised m (o :: ops)) (attempts : Nat) {l : ReplicaLink Mortal} (hl : l ∈ r.replicas) :
    (l.Lasts ∧ ∃ l' answer, l.operate Mortal.react r.sender (attempts + 1) o = (l', .answered (.queue o.id answer)) ∧
        m.Answers o answer ∧ l'.Ready (m.after o) ops) ∨
      ¬ l.Lasts ∧ ∃ l' fault, l.operate Mortal.react r.sender (attempts + 1) o = (l', .failed fault) := by
  have ho := h.proper o List.mem_cons_self
  have hids : ∀ p ∈ ops, p.id ≠ o.id := fun p hp heq =>
    (List.nodup_cons.1 h.ids).1 (heq ▸ List.mem_map_of_mem hp)
  by_cases hlasts : l.Lasts
  · exact .inl ⟨hlasts, (h.ready l hl).operate_of_lasts ho h.noneEmpty h.fits.1 hids hlasts r.sender attempts⟩
  · exact .inr ⟨hlasts, (h.ready l hl).operate_of_not_lasts ho h.fits.1.request hlasts r.sender attempts⟩

/-- A link that stays belongs to a replica that lasts, and has given the answer of the map. -/
theorem of_mem_survivors (h : r.Poised m (o :: ops)) {attempts : Nat} {p : ReplicaLink Mortal × Message}
    (hp : p ∈ survivors (ReplicaLink.operate Mortal.react r.sender (attempts + 1) o) r.replicas) :
    (∃ l ∈ r.replicas, l.Lasts) ∧ p.1.Ready (m.after o) ops ∧ ∃ answer, p.2 = .queue o.id answer ∧ m.Answers o answer := by
  obtain ⟨l, hl, hanswered⟩ := mem_survivors.1 hp
  rcases h.operate attempts hl with ⟨hlasts, l', answer, hl', hanswer, hready⟩ | ⟨-, l', fault, hl'⟩
  · obtain ⟨rfl, hreply⟩ := Prod.mk.inj (hanswered.symm.trans hl')
    exact ⟨⟨l, hl, hlasts⟩, hready, answer, Exchange.answered.inj hreply, hanswer⟩
  · simp [hl'] at hanswered

/-- A replica that lasts stays. -/
theorem survivors_ne_nil (h : r.Poised m (o :: ops)) (attempts : Nat) (hlasts : ∃ l ∈ r.replicas, l.Lasts) :
    survivors (ReplicaLink.operate Mortal.react r.sender (attempts + 1) o) r.replicas ≠ [] := by
  obtain ⟨l, hl, hlasts⟩ := hlasts
  rcases h.operate attempts hl with ⟨-, l', answer, hl', -⟩ | ⟨hnot, -⟩
  · have hmem : (l', Message.queue o.id answer) ∈
        survivors (ReplicaLink.operate Mortal.react r.sender (attempts + 1) o) r.replicas :=
      mem_survivors.2 ⟨l, hl, hl'⟩
    exact List.ne_nil_of_mem hmem
  · exact absurd hlasts hnot

/-- One operation at a relay: it finishes, and leads to a relay that is ready for what comes next. -/
theorem replicate (h : r.Poised m (o :: ops)) (attempts : Nat) :
    ∃ r' result, r.replicate Mortal.react (attempts + 1) o.id o.request = some (r', result) ∧ r'.Poised (m.after o) ops ∧
      (∀ answer, result = .ok answer ↔ (∃ l ∈ r.replicas, l.Lasts) ∧ m.Answers o answer) ∧
      (result = .error .noReplicas ↔ r'.replicas = []) := by
  have hends : ∀ l ∈ r.replicas, (l.operate Mortal.react r.sender (attempts + 1) o).2 ≠ .unanswered := by
    intro l hl
    rcases h.operate attempts hl with ⟨-, l', answer, hl', -⟩ | ⟨-, l', fault, hl'⟩ <;> simp [hl']
  refine ⟨_, _, replicate_eq_some_iff.2 ⟨hends, rfl, rfl⟩, ?_, ?_⟩
  · refine ⟨fun l' hl' => ?_, (List.nodup_cons.1 h.ids).2, fun p hp => h.proper p (List.mem_cons_of_mem o hp),
      h.noneEmpty.after (h.proper o List.mem_cons_self), h.fits.2⟩
    obtain ⟨p, hp, rfl⟩ := List.mem_map.1 hl'
    exact (h.of_mem_survivors hp).2.1
  · have hlast := mt (h.survivors_ne_nil attempts)
    cases hs : survivors (ReplicaLink.operate Mortal.react r.sender (attempts + 1) o) r.replicas with
    | nil =>
      refine ⟨fun answer => ⟨fun hok => ?_, fun hany => absurd hany.1 (hlast (not_not.2 hs))⟩, fun _ => rfl, fun _ => rfl⟩
      cases hok
    | cons p ps =>
      obtain ⟨hlasts, -, answer, hreply, hanswer⟩ := h.of_mem_survivors (hs ▸ List.mem_cons_self)
      have hverdict : verdict ((p :: ps).map Prod.snd) = .ok answer := by
        rw [List.map_cons, hreply]
        rfl
      rw [hverdict]
      refine ⟨fun answer' => ⟨fun hok => ?_, fun hany => ?_⟩, by simp⟩
      · cases hok
        exact ⟨hlasts, hanswer⟩
      · rw [hanswer.unique hany.2]

/-- Operations one after the other. -/
theorem replicateAll {done : List Operation} (h : r.Poised m (done ++ ops)) (attempts : Nat) :
    ∃ r' results, r.replicateAll Mortal.react (attempts + 1) done = some (r', results) ∧ r'.Poised (m.afterAll done) ops := by
  induction done generalizing r m with
  | nil => exact ⟨r, [], rfl, h⟩
  | cons o done ih =>
    obtain ⟨r₁, result, hone, hpoised, -⟩ := h.replicate attempts
    obtain ⟨r', results, hmore, hlast⟩ := ih hpoised
    refine ⟨r', result :: results, ?_, hlast⟩
    rw [Relay.replicateAll, hone, Option.bind_some]
    dsimp only
    rw [hmore, Option.map_some]

end Poised

/-- **A relay over replicas that crash is one room map.** After any operations, the next one has a result if and only if a
replica lasts through both of its phases, and then it is the answer of the map; the replicas that are left show the map, changed
as the operation says; and none are left if and only if there is no result. -/
theorem replicate_refines {r : Relay Mortal} {m : RoomMap} {done : List Operation} {o : Operation}
    (h : r.Poised m (done ++ [o])) (attempts : Nat) :
    ∃ before results after result, r.replicateAll Mortal.react (attempts + 1) done = some (before, results) ∧
      before.replicate Mortal.react (attempts + 1) o.id o.request = some (after, result) ∧
      (∀ answer, result = .ok answer ↔ (∃ l ∈ before.replicas, l.Lasts) ∧ (m.afterAll done).Answers o answer) ∧
      (∀ l ∈ after.replicas, ∀ token, l.far.replica.ledger.advert? token = m.afterAll (done ++ [o]) token) ∧
      (result = .error .noReplicas ↔ after.replicas = []) := by
  obtain ⟨before, results, hbefore, hpoised⟩ := h.replicateAll attempts
  obtain ⟨after, result, hafter, hnext, hresult, hempty⟩ := hpoised.replicate attempts
  refine ⟨before, results, after, result, hbefore, hafter, hresult, fun l hl token => ?_, hempty⟩
  rw [RoomMap.afterAll, List.foldl_append]
  exact (hnext.ready l hl).rooms.advert token

/-- Replicas of which one stays, one hangs up after it has carried the first operation out and one when it has answered it. -/
def crew : Relay Mortal :=
  let replica : Honest := ⟨⟨.loopback, 2⟩, .new 4, .fresh⟩
  let link (n : UInt16) (fates : Nat → Fate) : ReplicaLink Mortal := ⟨.v4 ⟨.loopback, n⟩, ⟨replica, fates⟩, [], true⟩
  ⟨⟨.loopback, 1⟩,
    [link 2 fun _ => .answers, link 3 fun n => if n = 1 then .mute else .answers,
      link 4 fun n => if n = 1 then .leaves else .answers]⟩

def renewal : Operation := ⟨.nil, .hostUpdated "token" [7]⟩

theorem crew_poised : crew.Poised (fun _ => none) ([] ++ [renewal]) := by
  have hnone : RoomMap.NoneEmpty fun _ => none := fun t payload ht => nomatch ht
  refine ⟨fun l hl => ?_, List.nodup_singleton _, ?_, hnone, ⟨?_, fun answer hanswer => ?_⟩, trivial⟩
  · have hshows : (Ledger.new 4).Shows fun _ => none := ⟨SortedMap.sorted_empty, SortedMap.get?_empty⟩
    simp only [crew, List.mem_cons, List.not_mem_nil, or_false] at hl
    rcases hl with rfl | rfl | rfl <;> exact ⟨rfl, fun _ => rfl, hshows, fun o _ => SortedMap.get?_empty o.id⟩
  · intro o ho
    obtain rfl := List.mem_singleton.1 ho
    exact ⟨by decide, by simp [renewal]⟩
  · rw [Message.length_bodyBytes_queue]
    decide
  · cases hanswer
    rw [Message.length_bodyBytes_queue]
    decide

/-- The replicas that are left have the new advert. -/
theorem replicate_refines_crew :
    ∃ after, crew.replicate Mortal.react 1 .nil (.hostUpdated "token" [7]) = some (after, .ok (.ack "token")) ∧
      ∀ l ∈ after.replicas, l.far.replica.ledger.advert? "token" = some [7] := by
  obtain ⟨before, results, after, result, hbefore, hafter, hresult, hadverts, -⟩ :=
    replicate_refines crew_poised 0
  cases hbefore
  have hlasts : ∃ l ∈ crew.replicas, l.Lasts := ⟨_, List.mem_cons_self, rfl, rfl, .inl rfl⟩
  have hok : result = .ok (.ack "token") := (hresult _).2 ⟨hlasts, .updated .nil "token" [7]⟩
  refine ⟨after, hok ▸ hafter, fun l hl => (hadverts l hl "token").trans ?_⟩
  rfl

end Relay
end Parley.Directory

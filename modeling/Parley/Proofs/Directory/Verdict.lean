import Mathlib.Logic.Basic
import Parley.Directory.Conduct
import Parley.Proofs.Directory.Operation
import Parley.Proofs.Message.Queued

/-!
# What an outcome says

Replicas may do whatever they like. An operation that finishes leaves those in the list that echoed its id in both phases, and
its outcome is read off their replies to the second one (`Relay.replicate_outcome`).

A reply to the second phase may echo the id without a result. Its replica stays in the list, so that an operation can come to
nothing although there are replicas left (`Relay.replicate_echoing`).
-/

namespace Parley.Directory

section Replies

variable {id : OperationId} {m : Message}

theorem eq_of_echoedId? (h : echoedId? m = some id) : m = .process id ∨ ∃ inner, m = .queue id inner := by
  cases m <;> simp only [echoedId?, Option.some.injEq, reduceCtorEq] at h
  case process => exact .inl (h ▸ rfl)
  case queue _ inner => exact .inr ⟨inner, h ▸ rfl⟩

theorem result?_eq_none_iff (h : echoedId? m = some id) : result? m = none ↔ m = .process id := by
  rcases eq_of_echoedId? h with rfl | ⟨inner, rfl⟩ <;> simp [result?]

theorem result?_eq_some_iff (h : echoedId? m = some id) {inner : Message} : result? m = some inner ↔ m = .queue id inner := by
  rcases eq_of_echoedId? h with rfl | ⟨inner, rfl⟩ <;> simp [result?]

end Replies

section Verdict

variable {id : OperationId} {replies : List Message}

/-- The first reply with a result decides. -/
theorem verdict_eq_ok_iff (h : ∀ m ∈ replies, echoedId? m = some id) {inner : Message} :
    verdict replies = .ok inner ↔
      ∃ before after, replies = before ++ .queue id inner :: after ∧ ∀ m ∈ before, m = .process id := by
  have hverdict : verdict replies = .ok inner ↔ replies.findSome? result? = some inner := by
    rcases hfound : replies.findSome? result? with - | found <;> simp [verdict, hfound]
  rw [hverdict, List.findSome?_eq_some_iff]
  constructor
  · rintro ⟨before, m, after, rfl, hm, hbefore⟩
    have hid := h m (by simp)
    obtain rfl := (result?_eq_some_iff hid).1 hm
    refine ⟨before, after, rfl, fun n hn => ?_⟩
    exact (result?_eq_none_iff (h n (List.mem_append_left _ hn))).1 (hbefore n hn)
  · rintro ⟨before, after, rfl, hbefore⟩
    refine ⟨before, _, after, rfl, rfl, fun n hn => ?_⟩
    rw [hbefore n hn]
    rfl

/-- There is no result if no reply has one, be there replies or not. -/
theorem verdict_eq_error_iff (h : ∀ m ∈ replies, echoedId? m = some id) {fault : Fault} :
    verdict replies = .error fault ↔ fault = .noReplicas ∧ ∀ m ∈ replies, m = .process id := by
  have hnone : replies.findSome? result? = none ↔ ∀ m ∈ replies, m = .process id := by
    rw [List.findSome?_eq_none_iff]
    exact forall₂_congr fun m hm => result?_eq_none_iff (h m hm)
  rw [← hnone]
  rcases hfound : replies.findSome? result? with - | found <;> simp [verdict, hfound, eq_comm]

end Verdict

namespace Relay

variable {σ : Type} {react : σ → Frame → σ × Reaction} {r r' : Relay σ} {attempts : Nat} {o : Operation}
  {result : Except Fault Message}

/-- **What an outcome says.** Whatever the replicas do, those that are left are the ones that answer both phases with the id of
the operation. The result is the one in the first reply to the second phase that has one. If none has one there is no result,
also if replicas are left. -/
theorem replicate_outcome (h : r.replicate react attempts o.id o.request = some (r', result)) :
    ∃ kept : List (ReplicaLink σ × Message), r'.replicas = kept.map Prod.fst ∧
      (∀ p, p ∈ kept ↔ ∃ l ∈ r.replicas, l.Through react r.sender attempts o p.1 p.2) ∧
      (∀ p ∈ kept, p.2 = .process o.id ∨ ∃ inner, p.2 = .queue o.id inner) ∧
      (∀ inner, result = .ok inner ↔ ∃ before after, kept.map Prod.snd = before ++ .queue o.id inner :: after ∧
        ∀ reply ∈ before, reply = .process o.id) ∧
      ∀ fault, result = .error fault ↔ fault = .noReplicas ∧ ∀ p ∈ kept, p.2 = .process o.id := by
  obtain ⟨-, rfl, rfl⟩ := replicate_eq_some_iff.1 h
  have hkept : ∀ p, p ∈ survivors (ReplicaLink.operate react r.sender attempts o) r.replicas ↔
      ∃ l ∈ r.replicas, l.Through react r.sender attempts o p.1 p.2 := by
    intro p
    simp only [mem_survivors, ReplicaLink.operate_eq_answered_iff]
  have hid : ∀ p ∈ survivors (ReplicaLink.operate react r.sender attempts o) r.replicas, echoedId? p.2 = some o.id := by
    intro p hp
    obtain ⟨l, -, between, queued, -, hsecond⟩ := (hkept p).1 hp
    exact ReplicaLink.echoedId?_of_exchange hsecond
  have hids : ∀ reply ∈ (survivors (ReplicaLink.operate react r.sender attempts o) r.replicas).map Prod.snd,
      echoedId? reply = some o.id := List.forall_mem_map.2 hid
  refine ⟨_, rfl, hkept, fun p hp => eq_of_echoedId? (hid p hp), fun inner => verdict_eq_ok_iff hids, fun fault => ?_⟩
  rw [verdict_eq_error_iff hids, List.forall_mem_map]

end Relay

/-! ## Replicas that keep to a script -/

theorem Conduct.react_scripted {script : Script} {n : Nat} {e : Envelope} {reply : Message}
    (he : e.message.isWireValid = true) (h : answer script (n + 1) e.message = some (octets reply)) :
    react (.scripted script n) e.frame = (.scripted script (n + 1), ⟨(Envelope.frame ⟨sender, reply⟩).octets, false⟩) := by
  have hread : (Envelope.ofFrame e.frame).toOption.bind (fun e => answer script (n + 1) e.message) = some (octets reply) := by
    rw [Envelope.ofFrame_frame he]
    exact h
  simp only [react, hread]
  rfl

/-- A script that answers both phases with the id goes through the operation. -/
theorem ReplicaLink.operate_scripted {l : ReplicaLink Conduct} {sender : Endpoint} {o : Operation} {script : Script}
    {n : Nat} {reply : Message} (attempts : Nat) (hfar : l.far = .scripted script n) (hunread : l.unread = [])
    (hopen : l.isOpen = true) (hrequest : (Message.queue o.id o.request).isWireValid = true)
    (hfit : (Message.queue o.id o.request).bodyBytes.length ≤ Frame.defaultLimit)
    (hqueue : Conduct.answer script (n + 1) (.queue o.id o.request) = some (Conduct.octets (.process o.id)))
    (hprocess : Conduct.answer script (n + 2) (.process o.id) = some (Conduct.octets reply))
    (hvalid : reply.isWireValid = true) (hreply : reply.bodyBytes.length ≤ Frame.defaultLimit)
    (hid : echoedId? reply = some o.id) :
    l.operate Conduct.react sender (attempts + 1) o = ({ l with far := .scripted script (n + 2) }, .answered reply) := by
  have hfirst := Conduct.react_scripted (e := ⟨sender, .queue o.id o.request⟩) hrequest hqueue
  have hsecond := Conduct.react_scripted (e := ⟨sender, .process o.id⟩) rfl hprocess
  have hread : Message.ofBody reply.bodyBytes = .ok reply := by
    rw [Message.ofBody_bodyBytes_eq, Message.ofBodyChars_bodyChars hvalid]
  rw [operate_of_frames hfit hunread hopen (hfar ▸ hfirst) hsecond hreply hread hid, hopen]
  rfl

/-! ## Nothing but echoes -/

namespace Relay

/-- A replica that only ever echoes. -/
def echoing : ReplicaLink Conduct := ⟨.v4 ⟨.loopback, 1⟩, .scripted .echoOnly 0, [], true⟩

/-- A replica that makes results up. -/
def inventing : ReplicaLink Conduct := ⟨.v4 ⟨.loopback, 2⟩, .scripted .faithful 0, [], true⟩

def listing : Operation := ⟨.nil, .requestRoomList⟩

theorem operate_echoing : echoing.operate Conduct.react Conduct.sender 1 listing =
    ({ echoing with far := .scripted .echoOnly 2 }, .answered (.process .nil)) := by
  refine ReplicaLink.operate_scripted 0 rfl rfl rfl rfl ?_ rfl rfl rfl ?_ rfl
  · rw [Message.length_bodyBytes_queue]
    decide
  · exact ReplicaLink.fits_process .nil

theorem operate_inventing : inventing.operate Conduct.react Conduct.sender 1 listing =
    ({ inventing with far := .scripted .faithful 2 }, .answered (.queue .nil (.ack "scripted-2"))) := by
  refine ReplicaLink.operate_scripted 0 rfl rfl rfl rfl ?_ rfl rfl rfl ?_ rfl
  all_goals rw [Message.length_bodyBytes_queue]; decide

/-- The replica is left in the list, and the operation says that there are none. -/
theorem replicate_echoing : ∃ r', (Relay.mk Conduct.sender [echoing]).replicate Conduct.react 1 .nil .requestRoomList =
    some (r', .error .noReplicas) ∧ r'.replicas ≠ [] := by
  refine ⟨_, (replicate_eq_some_iff (o := listing)).2 ⟨?_, rfl, ?_⟩, ?_⟩
  · simp [operate_echoing]
  · simp only [survivors, operate_echoing, survivor?, List.filterMap_cons, List.map_cons]
    rfl
  · simp [survivors, operate_echoing, survivor?]

/-- One echo in front of a result. -/
theorem replicate_outcome_inventing :
    ∃ r', (Relay.mk Conduct.sender [echoing, inventing]).replicate Conduct.react 1 .nil .requestRoomList =
        some (r', .ok (.ack "scripted-2")) ∧
      ∃ kept : List (ReplicaLink Conduct × Message), r'.replicas = kept.map Prod.fst ∧ ∃ before after,
        kept.map Prod.snd = before ++ .queue .nil (.ack "scripted-2") :: after ∧ ∀ reply ∈ before, reply = .process .nil := by
  have hrun : ∃ r', (Relay.mk Conduct.sender [echoing, inventing]).replicate Conduct.react 1 .nil .requestRoomList =
      some (r', .ok (.ack "scripted-2")) := by
    refine ⟨_, (replicate_eq_some_iff (o := listing)).2 ⟨?_, rfl, ?_⟩⟩
    · simp [operate_echoing, operate_inventing]
    · simp only [survivors, operate_echoing, operate_inventing, survivor?, List.filterMap_cons, List.map_cons]
      rfl
  obtain ⟨r', hrun⟩ := hrun
  obtain ⟨kept, hleft, -, -, hok, -⟩ := replicate_outcome (o := listing) hrun
  exact ⟨r', hrun, kept, hleft, (hok _).1 rfl⟩

end Relay
end Parley.Directory

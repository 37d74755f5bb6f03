import Parley.Directory.Relay
import Parley.Proofs.Frame.Codec
import Parley.Proofs.Message.Queued

/-!
# Operations, replica by replica

A relay waits for all replicas in the first phase of an operation before it begins the second, but no replica learns what
another one did. So an operation is the same as both phases at one replica after the other (`ReplicaLink.operate`), and what
comes of it is read off the replies of those that went through both (`Relay.replicate_eq_some_iff`).
-/

namespace Parley.Directory

/-- The result that a reply carries. -/
def result? : Message → Option Message
  | .queue _ inner => some inner
  | _ => none

/-- The outcome of an operation, from the replies to its second phase. -/
def verdict (replies : List Message) : Except Fault Message :=
  match replies.findSome? result? with
  | some result => .ok result
  | none => .error .noReplicas

/-- A link stays in the list with its reply, if there is one. -/
def survivor? {σ : Type} : ReplicaLink σ × Exchange → Option (ReplicaLink σ × Message)
  | (l, .answered reply) => some (l, reply)
  | _ => none

/-- The links that stay in the list after requests to all of them, with their replies. -/
def survivors {σ : Type} (ask : ReplicaLink σ → ReplicaLink σ × Exchange) (ls : List (ReplicaLink σ)) :
    List (ReplicaLink σ × Message) :=
  ls.filterMap fun l => survivor? (ask l)

theorem mem_survivors {σ : Type} {ask : ReplicaLink σ → ReplicaLink σ × Exchange} {ls : List (ReplicaLink σ)}
    {p : ReplicaLink σ × Message} : p ∈ survivors ask ls ↔ ∃ l ∈ ls, ask l = (p.1, .answered p.2) := by
  have hone : ∀ e : ReplicaLink σ × Exchange, survivor? e = some p ↔ e = (p.1, .answered p.2) := by
    rintro ⟨l, e⟩
    cases e <;> simp [survivor?, Prod.ext_iff]
  simp only [survivors, List.mem_filterMap, hone]

theorem mem_map_fst_survivors {σ : Type} {ask : ReplicaLink σ → ReplicaLink σ × Exchange} {ls : List (ReplicaLink σ)}
    {l' : ReplicaLink σ} : l' ∈ (survivors ask ls).map Prod.fst ↔ ∃ l ∈ ls, ∃ reply, ask l = (l', .answered reply) := by
  constructor
  · intro h
    obtain ⟨⟨_, reply⟩, hkept, rfl⟩ := List.mem_map.1 h
    obtain ⟨l, hl, hanswered⟩ := mem_survivors.1 hkept
    exact ⟨l, hl, reply, hanswered⟩
  · rintro ⟨l, hl, reply, hanswered⟩
    exact List.mem_map.2 ⟨(l', reply), mem_survivors.2 ⟨l, hl, hanswered⟩, rfl⟩

/-- A member's request and the id that the relay gives it. -/
structure Operation where
  id : OperationId
  request : Message
  deriving DecidableEq, Repr

namespace ReplicaLink

variable {σ : Type} (react : σ → Frame → σ × Reaction) (sender : Endpoint)

/-- Both phases of an operation at one replica. The second one is left out if the first one fails. -/
def operate (attempts : Nat) (o : Operation) (l : ReplicaLink σ) : ReplicaLink σ × Exchange :=
  match l.exchange react sender (.queue o.id o.request) o.id attempts with
  | (l, .answered _) => l.exchange react sender (.process o.id) o.id attempts
  | unfinished => unfinished

/-- Both phases of an operation are answered, the second one with the given reply. -/
def Through (attempts : Nat) (o : Operation) (l l' : ReplicaLink σ) (reply : Message) : Prop :=
  ∃ between queued, l.exchange react sender (.queue o.id o.request) o.id attempts = (between, .answered queued) ∧
    between.exchange react sender (.process o.id) o.id attempts = (l', .answered reply)

variable {react sender} {l l' : ReplicaLink σ} {request reply : Message} {id : OperationId} {attempts : Nat}

/-! ## Reading replies -/

theorem nextReply_of_closed (hunread : l.unread = []) (hopen : l.isOpen = false) :
    l.nextReply = (l, some (.error (.replicaClosed l.addr))) := by
  have hdecode : Frame.decode Frame.defaultLimit [] = .ok none := rfl
  simp only [nextReply, hunread, hdecode, hopen, List.isEmpty_nil, Bool.false_eq_true, if_false, if_true]

theorem nextReply_of_frame {e : Envelope} (hunread : l.unread = e.frame.octets)
    (hfit : e.message.bodyBytes.length ≤ Frame.defaultLimit) (hread : Message.ofBody e.message.bodyBytes = .ok reply) :
    l.nextReply = ({ l with unread := [] }, some (.ok reply)) := by
  have hdecode : Frame.decode Frame.defaultLimit l.unread = .ok (some (e.frame, [])) := by
    rw [hunread, ← List.append_nil e.frame.octets]
    exact Frame.decode_octets_append hfit Frame.defaultLimit_lt []
  have hopen : Envelope.ofFrame e.frame = .ok ⟨e.sender, reply⟩ := by
    simp only [Envelope.ofFrame, Envelope.frame, hread, bind, Except.bind, pure, Except.pure]
  simp only [nextReply, hdecode, hopen]
  rfl

/-! ## One exchange -/

theorem exchange_of_tooLarge (h : Frame.defaultLimit < request.bodyBytes.length) :
    l.exchange react sender request id (attempts + 1) =
      (l, .failed (.message (.tooLarge request.bodyBytes.length Frame.defaultLimit))) := by
  have hencode := Frame.encode_eq_error (f := Envelope.frame ⟨sender, request⟩) h
  simp only [exchange, hencode]
  rfl

theorem exchange_of_fault {fault : Fault} (hfit : request.bodyBytes.length ≤ Frame.defaultLimit)
    (h : (l.deliver react (Envelope.frame ⟨sender, request⟩)).nextReply = (l', some (.error fault))) :
    l.exchange react sender request id (attempts + 1) = (l', .failed fault) := by
  have hencode := Frame.encode_eq (f := Envelope.frame ⟨sender, request⟩) hfit
  simp only [exchange, hencode, h]

theorem exchange_of_reply (hfit : request.bodyBytes.length ≤ Frame.defaultLimit)
    (h : (l.deliver react (Envelope.frame ⟨sender, request⟩)).nextReply = (l', some (.ok reply)))
    (hid : echoedId? reply = some id) :
    l.exchange react sender request id (attempts + 1) = (l', .answered reply) := by
  have hencode := Frame.encode_eq (f := Envelope.frame ⟨sender, request⟩) hfit
  simp only [exchange, hencode, h, hid, if_true]

/-- A far end that has hung up, and has left nothing to read, fails. -/
theorem exchange_of_closed (hfit : request.bodyBytes.length ≤ Frame.defaultLimit) (hunread : l.unread = [])
    (hopen : l.isOpen = false) :
    l.exchange react sender request id (attempts + 1) = (l, .failed (.replicaClosed l.addr)) := by
  have hdeliver : l.deliver react (Envelope.frame ⟨sender, request⟩) = l := by
    rw [deliver, hopen]
    rfl
  exact exchange_of_fault hfit (hdeliver.symm ▸ nextReply_of_closed hunread hopen)

/-- So does one that hangs up without a reply. -/
theorem exchange_of_hangUp {far : σ} (hfit : request.bodyBytes.length ≤ Frame.defaultLimit) (hunread : l.unread = [])
    (hopen : l.isOpen = true) (hreact : react l.far (Envelope.frame ⟨sender, request⟩) = (far, ⟨[], true⟩)) :
    l.exchange react sender request id (attempts + 1) =
      ({ l with far, isOpen := false }, .failed (.replicaClosed l.addr)) := by
  have hdeliver : l.deliver react (Envelope.frame ⟨sender, request⟩) = { l with far, isOpen := false } := by
    simp only [deliver, hopen, hreact, List.append_nil, if_true, Bool.not_true]
  exact exchange_of_fault hfit (hdeliver.symm ▸ nextReply_of_closed hunread rfl)

/-- A far end that sends one frame with a message that echoes the id has answered, whether it hangs up after it or not. -/
theorem exchange_of_frame {far : σ} {e : Envelope} {b : Bool} (hfit : request.bodyBytes.length ≤ Frame.defaultLimit)
    (hunread : l.unread = []) (hopen : l.isOpen = true)
    (hreact : react l.far (Envelope.frame ⟨sender, request⟩) = (far, ⟨e.frame.octets, b⟩))
    (hreply : e.message.bodyBytes.length ≤ Frame.defaultLimit) (hread : Message.ofBody e.message.bodyBytes = .ok reply)
    (hid : echoedId? reply = some id) :
    l.exchange react sender request id (attempts + 1) = ({ l with far, isOpen := !b }, .answered reply) := by
  have hdeliver : l.deliver react (Envelope.frame ⟨sender, request⟩) =
      { l with far, unread := e.frame.octets, isOpen := !b } := by
    simp only [deliver, hopen, hreact, hunread, List.nil_append, if_true]
  refine exchange_of_reply hfit ?_ hid
  rw [hdeliver, nextReply_of_frame rfl hreply hread, hunread]

/-- Whatever the far end does, an answer echoes the id. -/
theorem echoedId?_of_exchange (h : l.exchange react sender request id attempts = (l', .answered reply)) :
    echoedId? reply = some id := by
  induction attempts generalizing l with
  | zero => simp [exchange] at h
  | succ attempts ih =>
    unfold exchange at h
    dsimp only at h
    split at h
    · simp at h
    · split at h
      · simp at h
      · simp at h
      · split at h
        · rename_i hid
          cases h
          exact hid
        · exact ih h

/-- A property of the far end that every frame keeps is kept by an exchange. -/
theorem exchange_keeps {p : σ → Prop} (hreact : ∀ s f, p s → p (react s f).1) (h : p l.far) :
    p (l.exchange react sender request id attempts).1.far := by
  have hdeliver (l : ReplicaLink σ) (f : Frame) (h : p l.far) : p (l.deliver react f).far := by
    unfold deliver
    split
    · exact hreact l.far f h
    · exact h
  have hnext (l : ReplicaLink σ) : l.nextReply.1.far = l.far := by
    unfold nextReply
    split
    · rfl
    · rfl
    · split
      · rfl
      · split <;> rfl
  induction attempts generalizing l with
  | zero => exact h
  | succ attempts ih =>
    have hsent : p (l.deliver react (Envelope.frame ⟨sender, request⟩)).nextReply.1.far := by
      rw [hnext]
      exact hdeliver l _ h
    unfold exchange
    dsimp only
    split
    · exact h
    · split <;> rename_i hreply <;> rw [hreply] at hsent
      · exact hsent
      · exact hsent
      · split
        · exact hsent
        · exact ih hsent

/-! ## Both phases -/

theorem survivor?_operate (attempts : Nat) (o : Operation) (l : ReplicaLink σ) :
    survivor? (l.operate react sender attempts o) =
      (survivor? (l.exchange react sender (.queue o.id o.request) o.id attempts)).bind fun first =>
        survivor? (first.1.exchange react sender (.process o.id) o.id attempts) := by
  rcases hfirst : l.exchange react sender (.queue o.id o.request) o.id attempts with ⟨l', e⟩
  cases e <;> simp [operate, hfirst, survivor?]

theorem operate_eq_answered_iff {o : Operation} :
    l.operate react sender attempts o = (l', .answered reply) ↔ Through react sender attempts o l l' reply := by
  unfold Through
  rcases hfirst : l.exchange react sender (.queue o.id o.request) o.id attempts with ⟨between, e⟩
  cases e <;> simp [operate, hfirst]

/-- A failure of the first phase is a failure of the operation. -/
theorem operate_of_failed {o : Operation} {fault : Fault}
    (h : l.exchange react sender (.queue o.id o.request) o.id attempts = (l', .failed fault)) :
    l.operate react sender attempts o = (l', .failed fault) := by
  rw [operate, h]

theorem operate_of_answered {o : Operation}
    (h : l.exchange react sender (.queue o.id o.request) o.id attempts = (l', .answered reply)) :
    l.operate react sender attempts o = l'.exchange react sender (.process o.id) o.id attempts := by
  rw [operate, h]

theorem operate_keeps {p : σ → Prop} {o : Operation} (hreact : ∀ s f, p s → p (react s f).1) (h : p l.far) :
    p (l.operate react sender attempts o).1.far := by
  unfold operate
  split
  · rename_i between queued hqueued
    have hbetween : p (l.exchange react sender (.queue o.id o.request) o.id attempts).1.far := exchange_keeps hreact h
    rw [hqueued] at hbetween
    exact exchange_keeps hreact hbetween
  · exact exchange_keeps hreact h

theorem fits_process (id : OperationId) : (Message.process id).bodyBytes.length ≤ Frame.defaultLimit := by
  rw [Message.length_bodyBytes_process]
  decide

theorem ofBody_process (id : OperationId) : Message.ofBody (Message.process id).bodyBytes = .ok (.process id) := by
  rw [Message.ofBody_bodyBytes_eq, Message.ofBodyChars_bodyChars rfl]

/-- A replica that echoes the id when a request is queued. -/
theorem exchange_of_echo {far : σ} {s : Endpoint} {b : Bool} {o : Operation}
    (hfit : (Message.queue o.id o.request).bodyBytes.length ≤ Frame.defaultLimit) (hunread : l.unread = [])
    (hopen : l.isOpen = true) (hreact : react l.far (Envelope.frame ⟨sender, .queue o.id o.request⟩) =
      (far, ⟨(Envelope.frame ⟨s, .process o.id⟩).octets, b⟩)) :
    l.exchange react sender (.queue o.id o.request) o.id (attempts + 1) =
      ({ l with far, isOpen := !b }, .answered (.process o.id)) :=
  exchange_of_frame hfit hunread hopen hreact (fits_process o.id) (ofBody_process o.id) rfl

/-- A replica that echoes the id when a request is queued, and answers when it is carried out. -/
theorem operate_of_frames {far far' : σ} {s : Endpoint} {m : Message} {b : Bool} {o : Operation}
    (hfit : (Message.queue o.id o.request).bodyBytes.length ≤ Frame.defaultLimit) (hunread : l.unread = [])
    (hopen : l.isOpen = true)
    (hqueue : react l.far (Envelope.frame ⟨sender, .queue o.id o.request⟩) =
      (far, ⟨(Envelope.frame ⟨s, .process o.id⟩).octets, false⟩))
    (hprocess : react far (Envelope.frame ⟨sender, .process o.id⟩) = (far', ⟨(Envelope.frame ⟨s, m⟩).octets, b⟩))
    (hreply : m.bodyBytes.length ≤ Frame.defaultLimit) (hread : Message.ofBody m.bodyBytes = .ok reply)
    (hid : echoedId? reply = some o.id) :
    l.operate react sender (attempts + 1) o = ({ l with far := far', isOpen := !b }, .answered reply) := by
  rw [operate_of_answered (exchange_of_echo hfit hunread hopen hqueue)]
  exact exchange_of_frame (fits_process o.id) hunread rfl hprocess hreply hread hid

theorem survivors_operate (attempts : Nat) (o : Operation) (ls : List (ReplicaLink σ)) :
    survivors (operate react sender attempts o) ls =
      survivors (exchange react sender (.process o.id) o.id attempts)
        ((survivors (exchange react sender (.queue o.id o.request) o.id attempts) ls).map Prod.fst) := by
  simp only [survivors, List.filterMap_map, List.filterMap_filterMap]
  exact congrArg (List.filterMap · ls) (funext fun l => l.survivor?_operate attempts o)

/-- Both phases end if the first one does and, where it is answered, the second one. -/
theorem operate_ne_unanswered_iff {o : Operation} :
    (l.operate react sender attempts o).2 ≠ .unanswered ↔
      (l.exchange react sender (.queue o.id o.request) o.id attempts).2 ≠ .unanswered ∧
        ∀ l' reply, l.exchange react sender (.queue o.id o.request) o.id attempts = (l', .answered reply) →
          (l'.exchange react sender (.process o.id) o.id attempts).2 ≠ .unanswered := by
  rcases hfirst : l.exchange react sender (.queue o.id o.request) o.id attempts with ⟨l', e⟩
  cases e <;> simp [operate, hfirst]

end ReplicaLink

namespace Relay

variable {σ : Type} (react : σ → Frame → σ × Reaction)

/-- Takes requests through operations one after the other: the relay afterwards and the outcomes, if all of them finish. -/
def replicateAll (attempts : Nat) : Relay σ → List Operation → Option (Relay σ × List (Except Fault Message))
  | r, [] => some (r, [])
  | r, o :: ops =>
    (r.replicate react attempts o.id o.request).bind fun (r, result) =>
      (replicateAll attempts r ops).map fun (r, results) => (r, result :: results)

variable {react} {r r' : Relay σ} {attempts : Nat}

theorem fanOut_eq_some_iff {request : Message} {id : OperationId} {replies : List Message} :
    r.fanOut react attempts request id = some (r', replies) ↔
      (∀ l ∈ r.replicas, (l.exchange react r.sender request id attempts).2 ≠ .unanswered) ∧
        r' = { r with
          replicas := (survivors (ReplicaLink.exchange react r.sender request id attempts) r.replicas).map Prod.fst } ∧
        replies = (survivors (ReplicaLink.exchange react r.sender request id attempts) r.replicas).map Prod.snd := by
  have hfan : r.fanOut react attempts request id =
      if (r.replicas.map (ReplicaLink.exchange react r.sender request id attempts)).any fun e => e.2 = .unanswered then none
      else
        let kept := (r.replicas.map (ReplicaLink.exchange react r.sender request id attempts)).filterMap survivor?
        some ({ r with replicas := kept.map Prod.fst }, kept.map Prod.snd) := rfl
  rw [hfan, List.filterMap_map]
  split
  · rename_i hany
    obtain ⟨e, he, hun⟩ := List.any_eq_true.1 hany
    obtain ⟨l, hl, rfl⟩ := List.mem_map.1 he
    exact ⟨fun h => by simp at h, fun h => absurd (of_decide_eq_true hun) (h.1 l hl)⟩
  · rename_i hany
    have hends : ∀ l ∈ r.replicas, (l.exchange react r.sender request id attempts).2 ≠ .unanswered :=
      fun l hl hun => hany (List.any_eq_true.2 ⟨_, List.mem_map_of_mem hl, decide_eq_true hun⟩)
    constructor
    · intro h
      cases h
      exact ⟨hends, rfl, rfl⟩
    · rintro ⟨-, rfl, rfl⟩
      rfl

theorem replicate_eq (r : Relay σ) (attempts : Nat) (id : OperationId) (request : Message) :
    r.replicate react attempts id request =
      (r.fanOut react attempts (.queue id request) id).bind fun first =>
        (first.1.fanOut react attempts (.process id) id).map fun second => (second.1, verdict second.2) := by
  unfold replicate
  rcases r.fanOut react attempts (.queue id request) id with - | ⟨first, replies⟩
  · rfl
  · dsimp only [Option.bind_eq_bind, Option.bind_some]
    rcases first.fanOut react attempts (.process id) id with - | ⟨second, results⟩
    · rfl
    · dsimp only [Option.bind_some, Option.map_some]
      split
      · rename_i result hresult
        have hfound : results.findSome? result? = some result := hresult
        rw [verdict, hfound]
      · rename_i hresult
        have hnone : results.findSome? result? = none := hresult
        rw [verdict, hnone]

/-- **An operation runs replica by replica.** It finishes if no replica leaves an exchange open, and its outcome is that of the
replies of the replicas that go through both phases, which are those that stay. -/
theorem replicate_eq_some_iff {o : Operation} {result : Except Fault Message} :
    r.replicate react attempts o.id o.request = some (r', result) ↔
      (∀ l ∈ r.replicas, (l.operate react r.sender attempts o).2 ≠ .unanswered) ∧
        r' = { r with replicas := (survivors (ReplicaLink.operate react r.sender attempts o) r.replicas).map Prod.fst } ∧
        result = verdict ((survivors (ReplicaLink.operate react r.sender attempts o) r.replicas).map Prod.snd) := by
  have hends : (∀ l ∈ r.replicas, (l.operate react r.sender attempts o).2 ≠ .unanswered) ↔
      (∀ l ∈ r.replicas, (l.exchange react r.sender (.queue o.id o.request) o.id attempts).2 ≠ .unanswered) ∧
        ∀ l ∈ (survivors (ReplicaLink.exchange react r.sender (.queue o.id o.request) o.id attempts) r.replicas).map Prod.fst,
          (l.exchange react r.sender (.process o.id) o.id attempts).2 ≠ .unanswered := by
    constructor
    · intro h
      refine ⟨fun l hl => (ReplicaLink.operate_ne_unanswered_iff.1 (h l hl)).1, fun l' hl' => ?_⟩
      obtain ⟨l, hl, reply, hanswered⟩ := mem_map_fst_survivors.1 hl'
      exact (ReplicaLink.operate_ne_unanswered_iff.1 (h l hl)).2 l' reply hanswered
    · rintro ⟨hqueued, hprocessed⟩ l hl
      refine ReplicaLink.operate_ne_unanswered_iff.2 ⟨hqueued l hl, fun l' reply hanswered => ?_⟩
      exact hprocessed l' (mem_map_fst_survivors.2 ⟨l, hl, reply, hanswered⟩)
  -- the second phase begins with the links that the first one has left
  rw [replicate_eq, ReplicaLink.survivors_operate, hends, Option.bind_eq_some_iff]
  constructor
  · rintro ⟨⟨first, replies⟩, hfirst, hsecond⟩
    obtain ⟨⟨second, results⟩, hsecond, hout⟩ := Option.map_eq_some_iff.1 hsecond
    obtain ⟨hqueued, rfl, rfl⟩ := fanOut_eq_some_iff.1 hfirst
    obtain ⟨hprocessed, rfl, rfl⟩ := fanOut_eq_some_iff.1 hsecond
    cases hout
    exact ⟨⟨hqueued, hprocessed⟩, rfl, rfl⟩
  · rintro ⟨⟨hqueued, hprocessed⟩, rfl, rfl⟩
    refine ⟨_, fanOut_eq_some_iff.2 ⟨hqueued, rfl, rfl⟩, ?_⟩
    rw [fanOut_eq_some_iff.2 ⟨hprocessed, rfl, rfl⟩]
    rfl

end Relay
end Parley.Directory

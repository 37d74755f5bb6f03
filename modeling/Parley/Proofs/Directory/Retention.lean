import Mathlib.Data.List.Basic
import Parley.Proofs.Directory.Honest
import Parley.Proofs.Directory.Ledger
import Parley.Proofs.Message.Canonical

/-!
# Which replicas a relay keeps

A relay has replicas that stay connected and answer as they should (`Honest`), next to others that may do anything. What it
does with the frames of its members costs it an honest replica if and only if a request is too long: the relay repeats it
inside an operation, which adds 41 octets, and drops every replica that it cannot be sent to (`Relay.healthy_of_takeAll`). The
longest bodies that the relay reads are longer than what it can repeat (`Relay.healthy_of_takeAll_longest`).
-/

namespace Parley.Directory

/-- Honest replicas next to others. -/
def alongside {τ : Type} (other : τ → Frame → τ × Reaction) : Honest ⊕ τ → Frame → (Honest ⊕ τ) × Reaction
  | .inl x, f => (.inl (x.react f).1, (x.react f).2)
  | .inr y, f => (.inr (other y f).1, (other y f).2)

/-- A frame of a member, from the address that its connection comes from, and the id of the operation that the relay may make
of it. -/
structure Submission where
  id : OperationId
  remote : SocketAddress
  frame : Frame
  deriving DecidableEq, Repr

/-- The operation that the relay makes of a frame, if it is a request that is repeated at the replicas. -/
def Submission.operation? (s : Submission) : Option Operation :=
  match Envelope.ofFrame s.frame with
  | .ok e => if IsRequest e.message then some ⟨s.id, e.message⟩ else none
  | .error _ => none

/-- The request of an operation is within the limit when the operation is put around it. -/
def Operation.Forwardable (o : Operation) : Prop := o.request.bodyBytes.length + 41 ≤ Frame.defaultLimit

/-- Whatever reaches a replica of operations that are still to come, its replies to them are within the limit. -/
def Ledger.RepliesFit : Ledger → List Operation → Prop
  | _, [] => True
  | l, o :: ops => o.Forwardable →
    (∀ result, ((l.queue o.id o.request).process o.id).2 = .ok result →
      (Message.queue o.id result).bodyBytes.length ≤ Frame.defaultLimit) ∧
    ((l.queue o.id o.request).process o.id).1.RepliesFit ops

/-! ## What members send -/

namespace Relay

variable {σ : Type} (react : σ → Frame → σ × Reaction)

/-- What a frame of a member makes of the relay; `none` if an exchange with a replica does not end. -/
def take (attempts : Nat) (r : Relay σ) (s : Submission) : Option (Relay σ) :=
  match Envelope.ofFrame s.frame with
  | .error _ => some r
  | .ok e =>
    match r.handle react attempts s.id s.remote e.message with
    | (_, .silence) => none
    | (r, _) => some r

/-- Frames of members one after the other. -/
def takeAll (attempts : Nat) : Relay σ → List Submission → Option (Relay σ)
  | r, [] => some r
  | r, s :: ss => (r.take react attempts s).bind fun r => takeAll attempts r ss

variable {react} {r r' : Relay σ} {attempts : Nat} {s : Submission}

theorem take_of_operation {o : Operation} (ho : s.operation? = some o) :
    r.take react attempts s = (r.replicate react attempts o.id o.request).map Prod.fst := by
  unfold Submission.operation? at ho
  split at ho
  · rename_i e he
    split at ho
    · rename_i hrequest
      cases ho
      obtain ⟨sender, request⟩ := e
      rw [take, he]
      cases request <;> try contradiction
      all_goals
        simp only [handle]
        rcases r.replicate react attempts s.id _ with - | ⟨r', e | m⟩ <;> rfl
    · contradiction
  · contradiction

/-- A frame that is no request for the replicas leaves them alone. -/
theorem take_of_no_operation (h : s.operation? = none) : r.take react attempts s = some r := by
  unfold Submission.operation? at h
  split at h
  · rename_i e he
    split at h
    · contradiction
    · rename_i hrequest
      obtain ⟨sender, request⟩ := e
      rw [take, he]
      cases request <;> first | exact absurd rfl hrequest | rfl
  · rename_i e he
    rw [take, he]

end Relay

/-- A request that the relay has read can be put into an operation and read again. -/
theorem Submission.isWireValid_of_operation {s : Submission} {o : Operation} (h : s.operation? = some o) :
    IsRequest o.request = true ∧ (Message.queue o.id o.request).isWireValid = true := by
  unfold operation? at h
  split at h
  · rename_i e he
    split at h
    · rename_i hrequest
      cases h
      refine ⟨hrequest, ?_⟩
      dsimp only
      obtain ⟨sender, request⟩ := e
      cases request <;> try contradiction
      case hostRoom => rfl
      case requestRoomList => rfl
      case hostUpdated token payload =>
        have hread : Message.ofBody s.frame.body = .ok (.hostUpdated token payload) := by
          rcases hbody : Message.ofBody s.frame.body with e | m <;>
            simp only [Envelope.ofFrame, hbody, bind, Except.bind, pure, Except.pure, reduceCtorEq, Except.ok.injEq,
              Envelope.mk.injEq] at he
          rw [he.2]
        exact Message.isWireValid_queue (Message.isWireValid_of_ofBody hread) (by simp [Message.kind?])
    · contradiction
  · contradiction

/-- What a relay reads of a result echoes the id. -/
theorem exists_ofBody_result {m : Message} (h : IsResult m = true) (id : OperationId) :
    ∃ reply, Message.ofBody (Message.queue id m).bodyBytes = .ok reply ∧ echoedId? reply = some id := by
  cases m <;> try contradiction
  case ack info =>
    refine ⟨.queue id (.ack info), ?_, rfl⟩
    rw [Message.ofBody_bodyBytes_eq, Message.ofBodyChars_bodyChars rfl]
  case roomList entries => exact ⟨_, Message.ofBody_queue_roomList id entries, rfl⟩

/-! ## One replica -/

section Replica

variable {τ : Type} {other : τ → Frame → τ × Reaction}

theorem alongside_inl {x y : Honest} {f : Frame} {r : Reaction} (h : x.react f = (y, r)) :
    alongside other (.inl x) f = (.inl y, r) := by
  rw [alongside, h]

theorem isRight_alongside (s : Honest ⊕ τ) (f : Frame) (h : s.isRight = true) : (alongside other s f).1.isRight = true := by
  cases s with
  | inl x => contradiction
  | inr y => rfl

/-- A connection to an honest replica between two operations, with those that are still to come. -/
structure ReplicaLink.Steady (ops : List Operation) (l : ReplicaLink (Honest ⊕ τ)) (x : Honest) : Prop where
  far : l.far = .inl x
  unread : l.unread = []
  isOpen : l.isOpen = true
  fresh : x.intake = .fresh
  results : x.ledger.KeepsResults
  replies : x.ledger.RepliesFit ops

variable {l : ReplicaLink (Honest ⊕ τ)} {x : Honest} {o : Operation} {ops : List Operation}

/-- A request that can be forwarded goes through both phases. -/
theorem ReplicaLink.Steady.operate (h : l.Steady (o :: ops) x) (ho : IsRequest o.request = true)
    (hvalid : (Message.queue o.id o.request).isWireValid = true) (hfit : o.Forwardable) (sender : Endpoint)
    (attempts : Nat) :
    ∃ y reply, l.operate (alongside other) sender (attempts + 1) o = ({ l with far := .inl y }, .answered reply) ∧
      ({ l with far := .inl y } : ReplicaLink (Honest ⊕ τ)).Steady ops y := by
  obtain ⟨ledger, result, hprocess, hresult, hresults⟩ := Ledger.exists_process_queue h.results ho o.id
  obtain ⟨hreplies, hlater⟩ := h.replies hfit
  rw [hprocess] at hreplies hlater
  obtain ⟨reply, hread, hid⟩ := exists_ofBody_result hresult o.id
  have hqueue : (Message.queue o.id o.request).bodyBytes.length ≤ Frame.defaultLimit := by
    rw [Message.length_bodyBytes_queue]
    exact hfit
  have hqueued := Honest.react_queue (s := sender) h.fresh hqueue hvalid
  have hprocessed := Honest.react_process (x := x.queued o) (s := sender) h.fresh hprocess (hreplies result rfl)
  refine ⟨{ x with ledger }, reply, ?_, ⟨rfl, h.unread, h.isOpen, h.fresh, hresults, hlater⟩⟩
  rw [operate_of_frames hqueue h.unread h.isOpen (h.far ▸ alongside_inl hqueued) (alongside_inl hprocessed)
    (hreplies result rfl) hread hid, h.isOpen]
  rfl

/-- A request that cannot be forwarded fails at every replica. -/
theorem ReplicaLink.operate_of_not_forwardable {σ : Type} (react : σ → Frame → σ × Reaction) (sender : Endpoint)
    (attempts : Nat) (hfit : ¬ o.Forwardable) (l : ReplicaLink σ) :
    ∃ fault, l.operate react sender (attempts + 1) o = (l, .failed fault) := by
  have hlong : Frame.defaultLimit < (Message.queue o.id o.request).bodyBytes.length := by
    rw [Message.length_bodyBytes_queue]
    exact Nat.lt_of_not_le hfit
  exact ⟨_, operate_of_failed (exchange_of_tooLarge hlong)⟩

end Replica

/-! ## All replicas -/

namespace Relay

variable {τ : Type} {other : τ → Frame → τ × Reaction} {r r' : Relay (Honest ⊕ τ)} {o : Operation} {ops : List Operation}
  {attempts : Nat}

/-- The addresses of the honest replicas in the list. -/
def healthy (r : Relay (Honest ⊕ τ)) : List SocketAddress :=
  r.replicas.filterMap fun l => if l.far.isLeft then some l.addr else none

/-- The honest replicas are ready for operations. -/
def Steady (r : Relay (Honest ⊕ τ)) (ops : List Operation) : Prop :=
  ∀ l ∈ r.replicas, l.far.isLeft = true → ∃ x, l.Steady ops x

theorem replicas_of_not_forwardable {result : Except Fault Message} (hfit : ¬ o.Forwardable)
    (h : r.replicate (alongside other) (attempts + 1) o.id o.request = some (r', result)) : r'.replicas = [] := by
  obtain ⟨-, rfl, -⟩ := replicate_eq_some_iff.1 h
  have hnone : survivors (ReplicaLink.operate (alongside other) r.sender (attempts + 1) o) r.replicas = [] := by
    rw [List.eq_nil_iff_forall_not_mem]
    intro p hp
    obtain ⟨l, -, hanswered⟩ := mem_survivors.1 hp
    obtain ⟨fault, hfailed⟩ := l.operate_of_not_forwardable (alongside other) r.sender attempts hfit
    rw [hfailed] at hanswered
    cases hanswered
  exact congrArg (List.map Prod.fst) hnone

/-- A replica that is not honest does not become so. -/
theorem isLeft_of_operate {l l' : ReplicaLink (Honest ⊕ τ)} {sender : Endpoint} {e : Exchange}
    (h : l.operate (alongside other) sender attempts o = (l', e)) (hl' : l'.far.isLeft = true) : l.far.isLeft = true := by
  by_contra hl
  have hright : l.far.isRight = true := by simpa using hl
  have hkept : (l.operate (alongside other) sender attempts o).1.far.isRight = true :=
    ReplicaLink.operate_keeps (p := fun s : Honest ⊕ τ => s.isRight = true) isRight_alongside hright
  rw [h] at hkept
  cases hfar : l'.far <;> simp [hfar] at hkept hl'

theorem healthy_of_forwardable {result : Except Fault Message} (hr : r.Steady (o :: ops)) (ho : IsRequest o.request = true)
    (hvalid : (Message.queue o.id o.request).isWireValid = true) (hfit : o.Forwardable)
    (h : r.replicate (alongside other) (attempts + 1) o.id o.request = some (r', result)) :
    r'.healthy = r.healthy ∧ r'.Steady ops := by
  obtain ⟨-, rfl, -⟩ := replicate_eq_some_iff.1 h
  have honest : ∀ l ∈ r.replicas, l.far.isLeft = true → ∃ y reply,
      l.operate (alongside other) r.sender (attempts + 1) o = ({ l with far := .inl y }, .answered reply) ∧
        ({ l with far := .inl y } : ReplicaLink (Honest ⊕ τ)).Steady ops y := by
    intro l hl hleft
    obtain ⟨x, hx⟩ := hr l hl hleft
    exact hx.operate ho hvalid hfit r.sender attempts
  constructor
  · unfold healthy survivors
    dsimp only
    rw [List.filterMap_map, List.filterMap_filterMap]
    apply List.filterMap_congr
    intro l hl
    rcases hop : l.operate (alongside other) r.sender (attempts + 1) o with ⟨l', e⟩
    by_cases hleft : l.far.isLeft = true
    · obtain ⟨y, reply, hanswered, -⟩ := honest l hl hleft
      cases hop.symm.trans hanswered
      simp [survivor?, hleft]
    · have hleft' : ¬ l'.far.isLeft = true := mt (isLeft_of_operate hop) hleft
      cases e <;> simp [survivor?, hleft, hleft']
  · intro l' hl' hleft'
    obtain ⟨l, hl, reply, hop⟩ := mem_map_fst_survivors.1 hl'
    obtain ⟨y, reply', hanswered, hsteady⟩ := honest l hl (isLeft_of_operate hop hleft')
    cases hop.symm.trans hanswered
    exact ⟨y, hsteady⟩

/-- Honest replicas leave no exchange open. -/
theorem exists_replicate_of_honest (hr : r.Steady (o :: ops)) (ho : IsRequest o.request = true)
    (hvalid : (Message.queue o.id o.request).isWireValid = true) (hall : ∀ l ∈ r.replicas, l.far.isLeft = true) :
    ∃ r' result, r.replicate (alongside other) (attempts + 1) o.id o.request = some (r', result) ∧
      ∀ l ∈ r'.replicas, l.far.isLeft = true := by
  have hends : ∀ l ∈ r.replicas, (l.operate (alongside other) r.sender (attempts + 1) o).2 ≠ .unanswered ∧
      (l.operate (alongside other) r.sender (attempts + 1) o).1.far.isLeft = true := by
    intro l hl
    by_cases hfit : o.Forwardable
    · obtain ⟨x, hx⟩ := hr l hl (hall l hl)
      obtain ⟨y, reply, hanswered, -⟩ := hx.operate ho hvalid hfit r.sender attempts
      rw [hanswered]
      exact ⟨by simp, rfl⟩
    · obtain ⟨fault, hfailed⟩ := l.operate_of_not_forwardable (alongside other) r.sender attempts hfit
      rw [hfailed]
      exact ⟨by simp, hall l hl⟩
  refine ⟨_, _, replicate_eq_some_iff.2 ⟨fun l hl => (hends l hl).1, rfl, rfl⟩, fun l' hl' => ?_⟩
  obtain ⟨l, hl, reply, hanswered⟩ := mem_map_fst_survivors.1 hl'
  have hleft := (hends l hl).2
  rwa [hanswered] at hleft

/-- The operations that the relay makes of the frames of members. -/
def operations (ss : List Submission) : List Operation := ss.filterMap Submission.operation?

theorem mem_operations_cons {s : Submission} {ss : List Submission} :
    o ∈ operations (s :: ss) ↔ s.operation? = some o ∨ o ∈ operations ss := by
  simp [operations, List.mem_filterMap]

/-- One frame of a member: either it can be put into an operation, if it has to, and all honest replicas are left, or it cannot
and none are. -/
theorem healthy_of_take {s : Submission} {ss : List Submission} (hr : r.Steady (operations (s :: ss)))
    (h : r.take (alongside other) (attempts + 1) s = some r') :
    r'.Steady (operations ss) ∧
      ((∀ o, s.operation? = some o → o.Forwardable) ∧ r'.healthy = r.healthy ∨
        (∃ o, s.operation? = some o ∧ ¬ o.Forwardable) ∧ r'.healthy = []) := by
  cases hs : s.operation? with
  | none =>
    have hops : operations (s :: ss) = operations ss := List.filterMap_cons_none hs
    rw [take_of_no_operation hs] at h
    cases h
    refine ⟨hops ▸ hr, .inl ⟨fun o ho => ?_, rfl⟩⟩
    cases ho
  | some o =>
    have hops : operations (s :: ss) = o :: operations ss := List.filterMap_cons_some hs
    obtain ⟨ho, hvalid⟩ := Submission.isWireValid_of_operation hs
    rw [take_of_operation hs, Option.map_eq_some_iff] at h
    obtain ⟨⟨r', result⟩, hrun, rfl⟩ := h
    by_cases hfit : o.Forwardable
    · obtain ⟨hsame, hsteady⟩ := healthy_of_forwardable (hops ▸ hr) ho hvalid hfit hrun
      refine ⟨hsteady, .inl ⟨fun p hp => ?_, hsame⟩⟩
      cases hp
      exact hfit
    · have hdropped := replicas_of_not_forwardable hfit hrun
      refine ⟨fun l hl => ?_, .inr ⟨⟨o, rfl, hfit⟩, ?_⟩⟩
      · rw [hdropped] at hl
        cases hl
      · rw [healthy, hdropped, List.filterMap_nil]

/-- **Which replicas a relay keeps.** Whatever the other replicas do, all honest ones are left after frames of members that come
to an end, if every request among them can be put into an operation within the limit. If one cannot, none are left. -/
theorem healthy_of_takeAll {ss : List Submission} (hr : r.Steady (operations ss))
    (h : r.takeAll (alongside other) (attempts + 1) ss = some r') :
    ((∀ o ∈ operations ss, o.Forwardable) → r'.healthy = r.healthy) ∧
      ((∃ o ∈ operations ss, ¬ o.Forwardable) → r'.healthy = []) := by
  induction ss generalizing r with
  | nil =>
    cases h
    refine ⟨fun _ => rfl, ?_⟩
    rintro ⟨o, ho, -⟩
    cases ho
  | cons s ss ih =>
    rw [takeAll, Option.bind_eq_some_iff] at h
    obtain ⟨between, hone, hrest⟩ := h
    obtain ⟨hsteady, hstep⟩ := healthy_of_take hr hone
    obtain ⟨hall, hnone⟩ := ih hsteady hrest
    rcases hstep with ⟨hfit, hsame⟩ | ⟨⟨o, ho, hlong⟩, hempty⟩
    · refine ⟨fun hfits => ?_, ?_⟩
      · rw [hall fun p hp => hfits p (mem_operations_cons.2 (.inr hp)), hsame]
      · rintro ⟨p, hp, hlong⟩
        rcases mem_operations_cons.1 hp with hp | hp
        · exact absurd (hfit p hp) hlong
        · exact hnone ⟨p, hp, hlong⟩
    · refine ⟨fun hfits => absurd (hfits o (mem_operations_cons.2 (.inl ho))) hlong, fun _ => ?_⟩
      -- no honest replica is left, and none comes back, whatever the other frames are
      by_cases hfits : ∀ p ∈ operations ss, p.Forwardable
      · rw [hall hfits, hempty]
      · exact hnone (by simpa only [not_forall, exists_prop] using hfits)

/-- A relay with one honest replica. -/
def lone : Relay (Honest ⊕ Empty) :=
  ⟨⟨.loopback, 1⟩, [⟨.v4 ⟨.loopback, 2⟩, .inl ⟨⟨.loopback, 2⟩, .new 4, .fresh⟩, [], true⟩]⟩

def nobody : Empty → Frame → Empty × Reaction := fun y _ => nomatch y

theorem lone_steady {ops : List Operation} (h : (Ledger.new 4).RepliesFit ops) : lone.Steady ops := by
  intro l hl hleft
  obtain rfl := List.mem_singleton.1 hl
  have hresults : (Ledger.new 4).KeepsResults := fun id m hm => nomatch hm
  exact ⟨_, rfl, rfl, rfl, rfl, hresults, h⟩

/-- A frame with a request. -/
def submission (request : Message) : Submission := ⟨.nil, .v4 ⟨.loopback, 9⟩, Envelope.frame ⟨⟨.loopback, 9⟩, request⟩⟩

theorem operation?_submission {request : Message} (hvalid : request.isWireValid = true) (h : IsRequest request = true) :
    (submission request).operation? = some ⟨.nil, request⟩ := by
  have hread := Envelope.ofFrame_frame (e := ⟨⟨.loopback, 9⟩, request⟩) hvalid
  rw [Submission.operation?, submission]
  dsimp only
  rw [hread]
  dsimp only
  rw [if_pos h]

theorem operations_submission {request : Message} (hvalid : request.isWireValid = true) (h : IsRequest request = true) :
    operations [submission request] = [⟨.nil, request⟩] :=
  List.filterMap_cons_some (operation?_submission hvalid h)

theorem exists_takeAll_lone {request : Message} (hvalid : request.isWireValid = true) (h : IsRequest request = true)
    (hfits : (Ledger.new 4).RepliesFit [⟨.nil, request⟩]) :
    ∃ r' result, lone.takeAll (alongside nobody) 1 [submission request] = some r' ∧
      lone.replicate (alongside nobody) 1 .nil request = some (r', result) := by
  have ho := operation?_submission hvalid h
  obtain ⟨hrequest, hqueue⟩ := Submission.isWireValid_of_operation ho
  obtain ⟨r', result, hrun, -⟩ := exists_replicate_of_honest (o := ⟨.nil, request⟩) (lone_steady hfits) hrequest hqueue
    fun l hl => by
      obtain rfl := List.mem_singleton.1 hl
      rfl
  refine ⟨r', result, ?_, hrun⟩
  rw [takeAll, take_of_operation ho, hrun]
  rfl

/-- A small request, and the replica is left. -/
theorem healthy_of_takeAll_small : ∃ r', lone.takeAll (alongside nobody) 1 [submission (.hostUpdated "token" [7])] = some r' ∧
    r'.healthy = [.v4 ⟨.loopback, 2⟩] := by
  have hfits : (Ledger.new 4).RepliesFit [⟨.nil, .hostUpdated "token" [7]⟩] := by
    refine fun _ => ⟨fun result hresult => ?_, trivial⟩
    cases hresult
    rw [Message.length_bodyBytes_queue]
    decide
  have hops : operations [submission (.hostUpdated "token" [7])] = [⟨.nil, .hostUpdated "token" [7]⟩] :=
    operations_submission rfl rfl
  obtain ⟨r', -, hrun, -⟩ := exists_takeAll_lone rfl rfl hfits
  refine ⟨r', hrun, (healthy_of_takeAll (hops ▸ lone_steady hfits) hrun).1 fun o ho => ?_⟩
  rw [hops, List.mem_singleton] at ho
  subst ho
  unfold Operation.Forwardable
  decide

/-- An advert that makes the longest frame costs the relay its replica. -/
theorem healthy_of_longest {payload : Bytes} (h : payload.length = 12582909) :
    (submission (.hostRoom payload)).frame.body.length = Frame.defaultLimit ∧
      ∃ r', lone.takeAll (alongside nobody) 1 [submission (.hostRoom payload)] = some r' ∧ r'.healthy = [] := by
  have hlen : (Message.hostRoom payload).bodyBytes.length = Frame.defaultLimit := by
    rw [Message.length_bodyBytes_hostRoom, h]
    decide
  have hlong : ¬ (⟨.nil, .hostRoom payload⟩ : Operation).Forwardable := by
    rw [Operation.Forwardable, hlen]
    decide
  have hfits : (Ledger.new 4).RepliesFit [⟨.nil, .hostRoom payload⟩] := fun hfit => absurd hfit hlong
  obtain ⟨r', result, hrun, hreplicate⟩ := exists_takeAll_lone rfl rfl hfits
  refine ⟨hlen, r', hrun, ?_⟩
  rw [healthy, replicas_of_not_forwardable (o := ⟨.nil, .hostRoom payload⟩) hlong hreplicate, List.filterMap_nil]

/-- **The longest request that the relay reads.** It leaves the relay without its honest replica. -/
theorem healthy_of_takeAll_longest :
    (submission (.hostRoom (List.replicate 12582909 0))).frame.body.length = Frame.defaultLimit ∧
      lone.healthy = [.v4 ⟨.loopback, 2⟩] ∧
      ∃ r', lone.takeAll (alongside nobody) 1 [submission (.hostRoom (List.replicate 12582909 0))] = some r' ∧
        r'.healthy = [] := by
  obtain ⟨hlen, hrun⟩ := healthy_of_longest (List.length_replicate (n := 12582909) (a := 0))
  exact ⟨hlen, rfl, hrun⟩

end Relay
end Parley.Directory

import Parley.Directory.Replica
import Parley.Proofs.Directory.Operation

/-!
# Honest replicas

The far end of a replica connection as it should be: `Replica.serve` over a ledger. A frame that is a request the replica has a
reply to is answered with that reply, in one frame, and the connection stays open (`Honest.react_eq`). So a request is queued
(`Honest.react_queue`), and carrying it out gives the result of the ledger (`Honest.react_process`).
-/

namespace Parley.Directory

/-- A replica, and the relay's connection to it. -/
structure Honest where
  sender : Endpoint
  ledger : Ledger
  intake : Intake
  deriving DecidableEq, Repr

namespace Honest

/-- What comes of a frame that reaches it. -/
def react (x : Honest) (f : Frame) : Honest × Reaction :=
  let (ledger, intake, replies) := Replica.serve x.sender x.ledger x.intake f.octets
  ({ x with ledger, intake }, ⟨replies, !intake.isOpen⟩)

/-- The replica with a request queued. -/
def queued (x : Honest) (o : Operation) : Honest := { x with ledger := x.ledger.queue o.id o.request }

variable {x : Honest} {s : Endpoint}

/-- A request that has a reply. -/
theorem react_eq {f : Frame} {request : Envelope} {ledger : Ledger} {m : Message} (hfresh : x.intake = .fresh)
    (hfit : f.body.length ≤ Frame.defaultLimit) (hread : Envelope.ofFrame f = .ok request)
    (hhandle : Replica.handle x.ledger request.message = (ledger, .reply m))
    (hreply : m.bodyBytes.length ≤ Frame.defaultLimit) :
    x.react f = ({ x with ledger }, ⟨(Envelope.frame ⟨x.sender, m⟩).octets, false⟩) := by
  obtain ⟨sender, l, intake⟩ := x
  dsimp only at hfresh hhandle
  subst hfresh
  have hdrain : Frame.drain Frame.defaultLimit ([] ++ f.octets) = ⟨[f], [], none⟩ := by
    have hall : ∀ g ∈ [f], g.body.length ≤ Frame.defaultLimit := by simpa using hfit
    simpa using Frame.drain_octets Frame.defaultLimit_lt hall
  have hencode := Frame.encode_eq (f := Envelope.frame ⟨sender, m⟩) hreply
  simp only [react, Replica.serve, serve, Intake.fresh, hdrain, serveFrames, hread, hhandle, hencode, if_true,
    List.append_nil, Option.isNone_none, Bool.and_self, Bool.not_true]

/-- A request is queued, and its id is echoed. -/
theorem react_queue {o : Operation} (hfresh : x.intake = .fresh)
    (hfit : (Message.queue o.id o.request).bodyBytes.length ≤ Frame.defaultLimit)
    (hrequest : (Message.queue o.id o.request).isWireValid = true) :
    x.react (Envelope.frame ⟨s, .queue o.id o.request⟩) =
      (x.queued o, ⟨(Envelope.frame ⟨x.sender, .process o.id⟩).octets, false⟩) := by
  have hread := Envelope.ofFrame_frame (e := ⟨s, .queue o.id o.request⟩) hrequest
  exact react_eq hfresh hfit hread rfl (ReplicaLink.fits_process o.id)

/-- An operation is carried out, and its result is sent. -/
theorem react_process {id : OperationId} {ledger : Ledger} {result : Message} (hfresh : x.intake = .fresh)
    (hprocess : x.ledger.process id = (ledger, .ok result))
    (hreply : (Message.queue id result).bodyBytes.length ≤ Frame.defaultLimit) :
    x.react (Envelope.frame ⟨s, .process id⟩) =
      ({ x with ledger }, ⟨(Envelope.frame ⟨x.sender, .queue id result⟩).octets, false⟩) := by
  have hread := Envelope.ofFrame_frame (e := ⟨s, .process id⟩) rfl
  have hhandle : Replica.handle x.ledger (.process id) = (ledger, .reply (.queue id result)) := by
    simp only [Replica.handle, hprocess]
  exact react_eq hfresh (ReplicaLink.fits_process id) hread hhandle hreply

end Honest
end Parley.Directory

import Parley.Directory.Fault
import Parley.Envelope

/-!
# Serving connections

A directory server reads requests from a connection one after the other and answers each one before it reads the next
(`serve`). It hangs up when it is told goodbye, when it cannot answer, and when a frame is no message or its answer would be
too long.
-/

namespace Parley.Directory

/-- What comes of a request. -/
inductive Answer where
  /-- A reply is sent. -/
  | reply (message : Message)
  /-- The connection is closed. -/
  | hangUp
  /-- The connection is closed because of a fault. -/
  | failed (fault : Fault)
  /-- Nothing is ever sent, and nothing more is read. -/
  | silence
  deriving DecidableEq, Repr

/-- The server's end of a connection. -/
structure Intake where
  /-- Octets that are no whole frame yet. -/
  unread : Bytes
  isOpen : Bool
  deriving DecidableEq, Repr

/-- A connection that has just been accepted. -/
def Intake.fresh : Intake := ⟨[], true⟩

variable {σ : Type}

/-- Answers the requests in frames, up to the first after which the server hangs up: the state afterwards, the octets sent,
and whether the connection is still open. -/
def serveFrames (handle : σ → Message → σ × Answer) (sender : Endpoint) : σ → List Frame → σ × Bytes × Bool
  | s, [] => (s, [], true)
  | s, f :: fs =>
    match Envelope.ofFrame f with
    | .error _ => (s, [], false)
    | .ok request =>
      match handle s request.message with
      | (s, .hangUp) | (s, .failed _) => (s, [], false)
      | (s, .silence) => (s, [], true)
      | (s, .reply m) =>
        match (Envelope.frame ⟨sender, m⟩).encode Frame.defaultLimit with
        | .error _ => (s, [], false)
        | .ok octets =>
          let (s, more, isOpen) := serveFrames handle sender s fs
          (s, octets ++ more, isOpen)

/-- Octets reach a server on a connection: the state and the connection afterwards, and the octets sent. -/
def serve (handle : σ → Message → σ × Answer) (sender : Endpoint) (s : σ) (c : Intake) (octets : Bytes) :
    σ × Intake × Bytes :=
  if c.isOpen then
    let batch := Frame.drain Frame.defaultLimit (c.unread ++ octets)
    let (s, replies, isOpen) := serveFrames handle sender s batch.frames
    (s, ⟨batch.rest, isOpen && batch.fault.isNone⟩, replies)
  else (s, c, [])

end Parley.Directory

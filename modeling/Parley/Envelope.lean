import Parley.Frame

/-!
# Envelopes

An envelope is a message with the endpoint of its sender, which travels in the frame header and is never sealed. A frame
can be opened in two ways: as plain text (`Envelope.ofFrame`), or as the Base64 of a sealed body (`Envelope.ofSealedFrame`).
Which one is right depends on the connection and is not written in the frame.
-/

namespace Parley

/-- A message and its sender. -/
structure Envelope where
  sender : Endpoint
  message : Message
  deriving DecidableEq, Repr

namespace Envelope

/-- The frame that carries an envelope. -/
def frame (e : Envelope) : Frame := ⟨e.sender, e.message.bodyBytes⟩

/-- The envelope in a frame with a plain body. -/
def ofFrame (f : Frame) : Except Message.Fault Envelope := do
  let m ← Message.ofBody f.body
  return ⟨f.sender, m⟩

/-- The sealed envelope in a frame. -/
def ofSealedFrame (f : Frame) : Except Message.Fault Envelope := do
  let text ← Message.textOf f.body
  let ciphertext ← Message.readBase64 text
  return ⟨f.sender, .sealed ciphertext⟩

end Envelope
end Parley

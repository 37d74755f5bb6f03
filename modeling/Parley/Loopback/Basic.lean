import Parley.Envelope
import Parley.Link.Network

/-!
# Nodes in memory

Nodes can be run in memory: octets that are written on one end of a connection arrive at the other end, and an end that is
closed is seen as closed there. The steps of such a run need connections, and wait for what comes on them; a run that does
not get them comes to a halt.
-/

namespace Parley.Loopback

/-- Why a run cannot go on. -/
inductive Halt where
  /-- A connection that a step needs could not be opened. -/
  | noConnection
  /-- What a step waits for never comes. -/
  | nothingComes
  deriving DecidableEq, Repr

/-- What a reader of a connection finds. -/
inductive Arrival where
  /-- A message. -/
  | envelope (e : Envelope)
  /-- The end of the stream. -/
  | closed
  deriving DecidableEq, Repr

/-- Waits for `count` messages, or for the end of the stream if that comes before, in octets that have come in: what is found,
and what is left. Frames are opened by `read`. -/
def await (read : Frame → Option Envelope) (isOpen : Bool) : (count : Nat) → Bytes → Except Halt (List Arrival × Bytes)
  | 0, octets => .ok ([], octets)
  | count + 1, octets =>
    match Frame.decode Frame.defaultLimit octets with
    | .ok (some (f, rest)) =>
      match read f with
      | some e => do
        let (more, rest) ← await read isOpen count rest
        return (.envelope e :: more, rest)
      | none => .error .nothingComes
    | _ => if isOpen then .error .nothingComes else .ok ([.closed], octets)

end Parley.Loopback

import Parley.Digits
import Parley.Message.Reader

/-!
# Frames

A stream is cut into frames. A frame is a header of twelve octets and a body:

* four octets of IPv4 address and four of port, most significant first: the sender;
* four octets of body length, most significant first;
* the body.

`Frame.encode` writes a frame, `Frame.decode` takes one off the front of a buffer, and `Frame.drain` takes off as many
as are complete. Both directions refuse bodies above a limit. A decoder that lacks octets says so and consumes nothing.
-/

namespace Parley

/-- The sender in the header, and the body that is still to be read. -/
structure Frame where
  sender : Endpoint
  body : Bytes
  deriving DecidableEq, Repr

namespace Frame

/-- The size of the header. -/
def headerLength : Nat := 12

/-- The longest body that a connection carries: 16 MiB. -/
def defaultLimit : Nat := 16 * 1024 * 1024

/-- Four octets, most significant first, of a number taken modulo `2 ^ 32`. -/
def word (n : Nat) : Bytes := (Digits.fixed 256 4 n).map UInt8.ofNat

/-- The number that octets stand for, most significant first. -/
def number (bs : Bytes) : Nat := Digits.value 256 (bs.map UInt8.toNat)

/-- The header of a frame. -/
def header (f : Frame) : Bytes :=
  [f.sender.ip.a, f.sender.ip.b, f.sender.ip.c, f.sender.ip.d] ++ word f.sender.port.toNat ++ word f.body.length

/-- The octets of a frame with a body up to the limit. -/
def encode (limit : Nat) (f : Frame) : Except Message.Fault Bytes :=
  if f.body.length > limit then .error (.tooLarge f.body.length limit) else .ok (f.header ++ f.body)

/-- Takes a frame off the front of a buffer and returns what is left; `none` if the frame is not complete. A length above
the limit is reported before a port that is out of range, and both before the body has arrived. -/
def decode (limit : Nat) (buffer : Bytes) : Except Message.Fault (Option (Frame × Bytes)) :=
  match buffer with
  | a :: b :: c :: d :: p :: q :: r :: s :: k :: l :: m :: n :: rest =>
    let port := number [p, q, r, s]
    let length := number [k, l, m, n]
    if length > limit then .error (.tooLarge length limit)
    else if port ≥ 65536 then .error (.headerPort port)
    else if rest.length < length then .ok none
    else .ok (some (⟨⟨⟨a, b, c, d⟩, UInt16.ofNat port⟩, rest.take length⟩, rest.drop length))
  | _ => .ok none

/-- What a decoder leaves is shorter than what it was given. -/
theorem length_lt_of_decode {limit : Nat} {buffer rest : Bytes} {f : Frame}
    (h : decode limit buffer = .ok (some (f, rest))) : rest.length < buffer.length := by
  unfold decode at h
  split at h
  · simp only at h
    split at h <;> try contradiction
    split at h <;> try contradiction
    split at h
    · simp at h
    · simp only [Except.ok.injEq, Option.some.injEq, Prod.mk.injEq] at h
      rw [← h.2]
      simp only [List.length_drop, List.length_cons]
      omega
  · simp at h

/-- What comes of a buffer: the frames in it, what is left, and the fault that ended the decoding, if one did. -/
structure Batch where
  frames : List Frame
  rest : Bytes
  fault : Option Message.Fault
  deriving DecidableEq, Repr

/-- Takes frames off the front of a buffer until none is complete or the decoder finds a fault. -/
def drain (limit : Nat) (buffer : Bytes) : Batch :=
  match _h : decode limit buffer with
  | .ok none => ⟨[], buffer, none⟩
  | .error e => ⟨[], buffer, some e⟩
  | .ok (some (f, rest)) =>
    let more := drain limit rest
    { more with frames := f :: more.frames }
  termination_by buffer.length
  decreasing_by exact length_lt_of_decode _h

end Frame
end Parley

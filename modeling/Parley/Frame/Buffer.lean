import Parley.Frame

/-!
# Frames in a buffer

A connection keeps its octets in a buffer: frames are written to the end of it and taken off its front, in place and step by
step. `Frame.put` and `Frame.take` act on a buffer, and what they have done to it stays done when they find a fault. They
find it before they do anything: `Frame.put` appends what `Frame.encode` returns (`on_put`), and `Frame.take` leaves what
`Frame.decode` does (`on_take`), and both leave the buffer as it is if there is no frame.
-/

namespace Parley

/-- Something that is done to a buffer and may end with a fault. -/
abbrev BufferM (α : Type) : Type := ExceptT Message.Fault (StateM Bytes) α

/-- What comes of it, and the buffer afterwards. -/
def BufferM.on {α : Type} (x : BufferM α) (buffer : Bytes) : Except Message.Fault α × Bytes := x.run.run buffer

namespace Frame

/-- Appends octets to a buffer. -/
def append (octets : Bytes) : BufferM Unit := modify (· ++ octets)

/-- Takes octets off the front of a buffer. -/
def splitOff (length : Nat) : BufferM Bytes := modifyGet fun buffer => (buffer.take length, buffer.drop length)

/-- Refuses a body above the limit. -/
def checkLength (limit length : Nat) : BufferM Unit :=
  if length > limit then throw (.tooLarge length limit) else pure ()

/-- Refuses a port that is out of range. -/
def checkPort (port : Nat) : BufferM UInt16 :=
  if port ≥ 65536 then throw (.headerPort port) else pure (UInt16.ofNat port)

/-- Appends a frame to a buffer. -/
def put (limit : Nat) (f : Frame) : BufferM Unit := do
  checkLength limit f.body.length
  append [f.sender.ip.a, f.sender.ip.b, f.sender.ip.c, f.sender.ip.d]
  append (word f.sender.port.toNat)
  append (word f.body.length)
  append f.body

/-- Takes a frame off the front of a buffer, if a whole one is there. The header is looked at first and stays in the buffer
until the body has arrived. -/
def take (limit : Nat) : BufferM (Option Frame) := do
  match ← get with
  | a :: b :: c :: d :: p :: q :: r :: s :: k :: l :: m :: n :: rest =>
    let length := number [k, l, m, n]
    checkLength limit length
    let port ← checkPort (number [p, q, r, s])
    if rest.length < length then return none
    let _ ← splitOff headerLength
    let body ← splitOff length
    return some ⟨⟨⟨a, b, c, d⟩, port⟩, body⟩
  | _ => return none

/-! ## What is done, step by step -/

end Frame

namespace BufferM

variable {α β : Type}

/-- Once there is a fault, the buffer stays as it is. -/
theorem on_bind (x : BufferM α) (f : α → BufferM β) (buffer : Bytes) :
    (x >>= f).on buffer =
      match x.on buffer with
      | (.ok a, buffer) => (f a).on buffer
      | (.error e, buffer) => (.error e, buffer) := by
  unfold on ExceptT.run StateT.run
  simp only [bind, ExceptT.bind, ExceptT.mk, StateT.bind, ExceptT.bindCont]
  cases x buffer with
  | mk result buffer => cases result <;> rfl

theorem on_pure (a : α) (buffer : Bytes) : (pure a : BufferM α).on buffer = (.ok a, buffer) := rfl

theorem on_get (buffer : Bytes) : (get : BufferM Bytes).on buffer = (.ok buffer, buffer) := rfl

end BufferM

namespace Frame

theorem on_append (octets buffer : Bytes) : (append octets).on buffer = (.ok (), buffer ++ octets) := rfl

theorem on_splitOff (length : Nat) (buffer : Bytes) :
    (splitOff length).on buffer = (.ok (buffer.take length), buffer.drop length) := rfl

variable {α : Type}

/-- Nothing is done after a body that is too long. -/
theorem on_checkLength_bind (limit length : Nat) (f : Unit → BufferM α) (buffer : Bytes) :
    (checkLength limit length >>= f).on buffer =
      if length > limit then (.error (.tooLarge length limit), buffer) else (f ()).on buffer := by
  unfold checkLength
  by_cases h : length > limit
  · rw [if_pos h, if_pos h]
    rfl
  · rw [if_neg h, if_neg h]
    rfl

/-- Nothing is done after a port that is out of range. -/
theorem on_checkPort_bind (port : Nat) (f : UInt16 → BufferM α) (buffer : Bytes) :
    (checkPort port >>= f).on buffer =
      if port ≥ 65536 then (.error (.headerPort port), buffer) else (f (UInt16.ofNat port)).on buffer := by
  unfold checkPort
  by_cases h : port ≥ 65536
  · rw [if_pos h, if_pos h]
    rfl
  · rw [if_neg h, if_neg h]
    rfl

/-- Writing to a buffer appends the octets of the frame, or nothing. -/
theorem on_put (limit : Nat) (f : Frame) (buffer : Bytes) :
    (put limit f).on buffer =
      match encode limit f with
      | .ok octets => (.ok (), buffer ++ octets)
      | .error e => (.error e, buffer) := by
  unfold put encode
  rw [on_checkLength_bind]
  by_cases h : f.body.length > limit
  · rw [if_pos h, if_pos h]
  · rw [if_neg h, if_neg h]
    simp only [BufferM.on_bind, on_append, header, List.append_assoc]

/-- Taking off the front of a buffer leaves what is left after the frame, or everything. -/
theorem on_take (limit : Nat) (buffer : Bytes) :
    (take limit).on buffer =
      match decode limit buffer with
      | .ok (some (f, rest)) => (.ok (some f), rest)
      | .ok none => (.ok none, buffer)
      | .error e => (.error e, buffer) := by
  unfold take
  rw [BufferM.on_bind, BufferM.on_get]
  dsimp only
  split
  · rename_i a b c d p q r s k l m n rest
    unfold decode
    dsimp only
    rw [on_checkLength_bind]
    by_cases hl : number [k, l, m, n] > limit
    · rw [if_pos hl, if_pos hl]
    · rw [if_neg hl, if_neg hl, on_checkPort_bind]
      by_cases hp : number [p, q, r, s] ≥ 65536
      · rw [if_pos hp, if_pos hp]
      · rw [if_neg hp, if_neg hp]
        by_cases hr : rest.length < number [k, l, m, n]
        · rw [if_pos hr, if_pos hr]
          exact BufferM.on_pure none _
        · rw [if_neg hr, if_neg hr]
          simp only [BufferM.on_bind, on_splitOff, BufferM.on_pure]
          rfl
  · rename_i hshort
    have hnone : decode limit buffer = .ok none := by
      unfold decode
      split
      · exact (hshort _ _ _ _ _ _ _ _ _ _ _ _ _ rfl).elim
      · rfl
    rw [hnone]
    rfl

end Frame
end Parley

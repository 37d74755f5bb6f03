import Parley.Envelope
import Parley.Proofs.Frame.Stream
import Parley.Proofs.Message.RoundTrip

/-!
# Frames read back

What is written as a frame is taken off the front of a buffer again (`Frame.decode_octets_append`), so that a stream of
frames is drained to exactly these frames, also chunk by chunk (`Frame.drain_octets`, `Frame.feed_octets`). A plain frame
holds the envelope that it was made of (`Envelope.ofFrame_frame`).

The header has 32 bits for the length of the body, and tells it as far as these go (`Frame.number_word_eq_mod`). A limit
that they can hold, such as that of connections, is what makes the header true.
-/

namespace Parley

namespace Frame

/-- The octets of a frame. -/
def octets (f : Frame) : Bytes := f.header ++ f.body

/-! ## Words -/

/-- A word keeps 32 bits of a number. -/
theorem number_word_eq_mod (n : Nat) : number (word n) = n % UInt32.size := by
  have hdigits : ((Digits.fixed 256 4 n).map UInt8.ofNat).map UInt8.toNat = Digits.fixed 256 4 n := by
    have hid : ∀ d ∈ Digits.fixed 256 4 n, (UInt8.toNat ∘ UInt8.ofNat) d = id d := fun d hd =>
      UInt8.toNat_ofNat_of_lt' (Digits.lt_of_mem_fixed (by decide) hd)
    rw [List.map_map, List.map_congr_left hid, List.map_id]
  rw [number, word, hdigits, Digits.value_fixed]
  rfl

theorem number_word {n : Nat} (h : n < UInt32.size) : number (word n) = n :=
  (number_word_eq_mod n).trans (Nat.mod_eq_of_lt h)

/-- A word is four octets. -/
theorem exists_word (n : Nat) : ∃ a b c d, word n = [a, b, c, d] := by
  have hlen : (word n).length = 4 := by rw [word, List.length_map, Digits.length_fixed]
  match word n, hlen with
  | [a, b, c, d], _ => exact ⟨a, b, c, d, rfl⟩

/-! ## One frame -/

theorem encode_eq {limit : Nat} {f : Frame} (h : f.body.length ≤ limit) : encode limit f = .ok f.octets :=
  if_neg (Nat.not_lt.2 h)

theorem encode_eq_error {limit : Nat} {f : Frame} (h : limit < f.body.length) :
    encode limit f = .error (.tooLarge f.body.length limit) :=
  if_pos h

/-- What is taken off the front of a buffer when a frame has been written: as much of its body as the header tells. -/
theorem decode_octets_append_of_le {limit : Nat} {f : Frame} (hf : f.body.length ≤ limit) (rest : Bytes) :
    decode limit (f.octets ++ rest) =
      .ok (some (⟨f.sender, f.body.take (f.body.length % UInt32.size)⟩,
        f.body.drop (f.body.length % UInt32.size) ++ rest)) := by
  obtain ⟨⟨⟨a, b, c, d⟩, port⟩, body⟩ := f
  obtain ⟨p, q, r, s, hport⟩ := exists_word port.toNat
  obtain ⟨k, l, m, n, hlength⟩ := exists_word body.length
  have hp : number [p, q, r, s] = port.toNat := by
    rw [← hport]
    exact number_word (Nat.lt_trans port.toNat_lt (by decide))
  have hl : number [k, l, m, n] = body.length % UInt32.size := by
    rw [← hlength]
    exact number_word_eq_mod body.length
  have hle : body.length % UInt32.size ≤ body.length := Nat.mod_le ..
  have hportlt : ¬ port.toNat ≥ 65536 := Nat.not_le.2 port.toNat_lt
  simp only [octets, header, hport, hlength, List.cons_append, List.nil_append, decode, hp, hl]
  rw [if_neg (Nat.not_lt.2 (Nat.le_trans hle hf)), if_neg hportlt, if_neg (by rw [List.length_append]; omega),
    List.take_append_of_le_length hle, List.drop_append_of_le_length hle, UInt16.ofNat_toNat]

/-- A frame up to a limit that the header can tell is taken off the front of a buffer. -/
theorem decode_octets_append {limit : Nat} {f : Frame} (hf : f.body.length ≤ limit) (hlimit : limit < UInt32.size)
    (rest : Bytes) : decode limit (f.octets ++ rest) = .ok (some (f, rest)) := by
  rw [decode_octets_append_of_le hf, Nat.mod_eq_of_lt (Nat.lt_of_le_of_lt hf hlimit), List.take_length,
    List.drop_length, List.nil_append]

/-! ## Many frames -/

/-- A stream of frames is drained to these frames, and nothing is left. -/
theorem drain_octets {limit : Nat} (hlimit : limit < UInt32.size) {fs : List Frame}
    (h : ∀ f ∈ fs, f.body.length ≤ limit) : drain limit (fs.flatMap octets) = ⟨fs, [], none⟩ := by
  induction fs with
  | nil => exact drain_of_none rfl
  | cons f fs ih =>
    rw [List.forall_mem_cons] at h
    rw [List.flatMap_cons, drain_of_some (decode_octets_append h.1 hlimit _), ih h.2]

/-- However a stream of frames is cut, what comes of the chunks is these frames, and nothing is left. -/
theorem feed_octets {limit : Nat} (hlimit : limit < UInt32.size) {fs : List Frame}
    (h : ∀ f ∈ fs, f.body.length ≤ limit) {chunks : List Bytes} (hchunks : chunks.flatten = fs.flatMap octets) :
    feed limit [] chunks = ⟨fs, [], none⟩ := by
  have hempty : decode limit [] = .ok none := rfl
  obtain ⟨hframes, hfault, hrest⟩ := feed_agrees_drain hempty chunks
  rw [List.nil_append, hchunks, drain_octets hlimit h] at hframes hfault hrest
  have hleft := hrest hfault
  generalize feed limit [] chunks = batch at hframes hfault hleft
  obtain ⟨frames, rest, fault⟩ := batch
  simp only at hframes hfault hleft
  rw [hframes, hfault, hleft]

theorem defaultLimit_lt : defaultLimit < UInt32.size := by decide

end Frame

namespace Envelope

/-- A plain frame holds its envelope. -/
theorem ofFrame_frame {e : Envelope} (h : e.message.isWireValid = true) : ofFrame e.frame = .ok e := by
  have hread : Message.ofBody e.message.bodyBytes = .ok e.message := by
    rw [Message.bodyBytes, Message.ofBody_encode, Message.ofBodyChars_bodyChars h]
  simp only [ofFrame, frame, hread, bind, Except.bind, pure, Except.pure]

/-- A frame with a sealed body holds its ciphertext. -/
theorem ofSealedFrame_frame (sender : Endpoint) (ciphertext : Bytes) :
    ofSealedFrame (frame ⟨sender, .sealed ciphertext⟩) = .ok ⟨sender, .sealed ciphertext⟩ := by
  have htext : Message.textOf (Message.bodyBytes (.sealed ciphertext)) = .ok (Base64.encode ciphertext) := by
    rw [Message.textOf, Message.bodyBytes, Message.bodyChars, Utf8.decode_encode]
  simp only [ofSealedFrame, frame, htext, Message.readBase64_encode, bind, Except.bind, pure, Except.pure]

end Envelope
end Parley

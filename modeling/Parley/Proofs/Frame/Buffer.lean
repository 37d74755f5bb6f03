import Parley.Frame.Buffer
import Parley.Proofs.Frame.Codec

/-!
# Frames and their octets

Frames and their octets determine each other: a frame that is written is taken off again, and a frame that is taken off is
what had been written (`Frame.octets_of_decode`). A buffer in which there is no frame stays as it is, and the header says
why: it has not arrived, or it is no header, or its body has not arrived (`Frame.decode_eq_none_iff`). For a codec that
writes to buffers and takes from them, this comes together in `Frame.codec_exact`.
-/

namespace Parley.Frame

variable {limit : Nat}

/-! ## Words -/

/-- Four octets are the word of their number. -/
theorem word_number {bs : Bytes} (h : bs.length = 4) : word (number bs) = bs := by
  have hlt : ∀ d ∈ bs.map UInt8.toNat, d < 256 := by
    intro d hd
    obtain ⟨b, -, rfl⟩ := List.mem_map.1 hd
    exact b.toNat_lt
  have hdigits := Digits.fixed_value hlt
  rw [List.length_map, h] at hdigits
  have hid : (UInt8.ofNat ∘ UInt8.toNat) = id := funext fun b => UInt8.ofNat_toNat
  rw [word, number, hdigits, List.map_map, hid, List.map_id]

/-- The word at a place of a buffer. -/
def wordAt (place : Nat) (buffer : Bytes) : Nat := number ((buffer.drop place).take 4)

/-- What comes later does not change a word. -/
theorem wordAt_append {place : Nat} {head : Bytes} (h : place + 4 ≤ head.length) (body : Bytes) :
    wordAt place (head ++ body) = wordAt place head := by
  unfold wordAt
  rw [List.drop_append_of_le_length (by omega), List.take_append_of_le_length (by rw [List.length_drop]; omega)]

/-! ## Headers -/

/-- The port in the header of a buffer. -/
def announcedPort (buffer : Bytes) : Nat := wordAt 4 buffer

/-- The length of the body in the header of a buffer. -/
def announcedLength (buffer : Bytes) : Nat := wordAt 8 buffer

/-- A header is the address of the sender and two words, and says what comes of any body. -/
theorem decode_of_header (limit : Nat) {head : Bytes} (h : head.length = headerLength) :
    ∃ ip : Ipv4, head = [ip.a, ip.b, ip.c, ip.d] ++ word (announcedPort head) ++ word (announcedLength head) ∧
      ∀ body, decode limit (head ++ body) =
        if announcedLength head > limit then .error (.tooLarge (announcedLength head) limit)
        else if announcedPort head ≥ 65536 then .error (.headerPort (announcedPort head))
        else if body.length < announcedLength head then .ok none
        else .ok (some (⟨⟨ip, UInt16.ofNat (announcedPort head)⟩, body.take (announcedLength head)⟩,
          body.drop (announcedLength head))) := by
  match head, h with
  | [a, b, c, d, p, q, r, s, k, l, m, n], _ =>
    have hport : word (announcedPort [a, b, c, d, p, q, r, s, k, l, m, n]) = [p, q, r, s] := word_number rfl
    have hlength : word (announcedLength [a, b, c, d, p, q, r, s, k, l, m, n]) = [k, l, m, n] := word_number rfl
    exact ⟨⟨a, b, c, d⟩, by rw [hport, hlength]; rfl, fun _ => rfl⟩

/-- A decoder waits for the rest of the header, or for that of the body, if the header is one. -/
theorem decode_eq_none_iff {buffer : Bytes} :
    decode limit buffer = .ok none ↔
      buffer.length < headerLength ∨
        announcedLength buffer ≤ limit ∧ announcedPort buffer < 65536 ∧
          buffer.length < headerLength + announcedLength buffer := by
  by_cases hshort : buffer.length < headerLength
  · exact iff_of_true (decode_of_short hshort) (.inl hshort)
  · obtain ⟨head, body, hlen, rfl⟩ := exists_head hshort
    obtain ⟨ip, -, hd⟩ := decode_of_header limit hlen
    have hport : announcedPort (head ++ body) = announcedPort head := wordAt_append (by rw [hlen]; decide) body
    have hlength : announcedLength (head ++ body) = announcedLength head := wordAt_append (by rw [hlen]; decide) body
    rw [hport, hlength, hd, or_iff_right hshort, List.length_append, hlen]
    split
    · simp; omega
    · split
      · simp; omega
      · split
        · simp; omega
        · simp; omega

/-- What is taken off is the octets of a frame up to the limit. -/
theorem octets_of_decode {buffer rest : Bytes} {f : Frame} (h : decode limit buffer = .ok (some (f, rest))) :
    f.body.length ≤ limit ∧ buffer = f.octets ++ rest := by
  obtain ⟨head, body, hlen, rfl⟩ := exists_header (show decode limit buffer ≠ .ok none by simp [h])
  obtain ⟨ip, hhead, hd⟩ := decode_of_header limit hlen
  rw [hd] at h
  split at h
  · cases h
  · rename_i hlimit
    split at h
    · cases h
    · rename_i hport
      split at h
      · cases h
      · rename_i hbody
        simp only [Except.ok.injEq, Option.some.injEq, Prod.mk.injEq] at h
        obtain ⟨rfl, rfl⟩ := h
        have htake : (body.take (announcedLength head)).length = announcedLength head :=
          List.length_take_of_le (Nat.le_of_not_lt hbody)
        have hnumber : (UInt16.ofNat (announcedPort head)).toNat = announcedPort head :=
          UInt16.toNat_ofNat_of_lt' (Nat.lt_of_not_le hport)
        refine ⟨Nat.le_trans (Nat.le_of_eq htake) (Nat.le_of_not_lt hlimit), ?_⟩
        rw [octets, header, htake, hnumber, ← hhead, List.append_assoc, List.take_append_drop]

/-! ## Buffers -/

theorem decode_of_on_take {buffer left : Bytes} {f : Frame} (h : (take limit).on buffer = (.ok (some f), left)) :
    decode limit buffer = .ok (some (f, left)) := by
  rw [on_take] at h
  split at h
  · rename_i g rest hd
    cases h
    exact hd
  · cases h
  · cases h

theorem on_take_eq_none_iff {buffer : Bytes} :
    ((take limit).on buffer).1 = .ok none ↔ decode limit buffer = .ok none := by
  rw [on_take]
  split
  · rename_i hd
    simp [hd]
  · rename_i hd
    simp [hd]
  · rename_i hd
    simp [hd]

/-- A buffer that no frame is taken off stays as it is. -/
theorem on_take_unchanged {buffer left : Bytes} {result : Except Message.Fault (Option Frame)}
    (h : (take limit).on buffer = (result, left)) (hnone : ∀ f, result ≠ .ok (some f)) : left = buffer := by
  rw [on_take] at h
  split at h
  · exact absurd (congrArg Prod.fst h).symm (hnone _)
  · exact (congrArg Prod.snd h).symm
  · exact (congrArg Prod.snd h).symm

/-- **The codec is exact.** Writing to a buffer appends the octets of the frame, if its body is up to the limit, and leaves
the buffer as it is otherwise. A frame that was written is taken off again, whatever comes after it; what is taken off is a
frame that can be written, and its octets; and if nothing is taken off, the buffer stays as it is. There is nothing to
report exactly if the header has not arrived, or if it is one and the body has not arrived. -/
theorem codec_exact (hlimit : limit < UInt32.size) (f : Frame) (written rest buffer : Bytes) :
    (put limit f).on written =
        (if f.body.length ≤ limit then (.ok (), written ++ f.octets)
        else (.error (.tooLarge f.body.length limit), written)) ∧
      (f.body.length ≤ limit → (take limit).on (f.octets ++ rest) = (.ok (some f), rest)) ∧
      (∀ g left, (take limit).on buffer = (.ok (some g), left) → g.body.length ≤ limit ∧ buffer = g.octets ++ left) ∧
      (∀ result left, (take limit).on buffer = (result, left) → (∀ g, result ≠ .ok (some g)) → left = buffer) ∧
      (((take limit).on buffer).1 = .ok none ↔
        buffer.length < 12 ∨
          announcedLength buffer ≤ limit ∧ announcedPort buffer < 65536 ∧
            buffer.length < 12 + announcedLength buffer) := by
  refine ⟨?_, fun hf => ?_, fun g left h => octets_of_decode (decode_of_on_take h),
    fun result left h hnone => on_take_unchanged h hnone, on_take_eq_none_iff.trans decode_eq_none_iff⟩
  · rw [on_put]
    by_cases hf : f.body.length ≤ limit
    · rw [encode_eq hf, if_pos hf]
    · rw [encode_eq_error (Nat.lt_of_not_le hf), if_neg hf]
  · rw [on_take, decode_octets_append hf hlimit]

/-- Under the largest limit: a frame behind an octet, the frame before an octet, and a frame of which an octet is missing. -/
theorem codec_exact_widest :
    let limit := UInt32.size - 1
    let bye : Frame := ⟨⟨.loopback, 7000⟩, [66, 89, 69]⟩
    limit < UInt32.size ∧
      (put limit bye).on [9] = (.ok (), [9, 127, 0, 0, 1, 0, 0, 27, 88, 0, 0, 0, 3, 66, 89, 69]) ∧
      (take limit).on [127, 0, 0, 1, 0, 0, 27, 88, 0, 0, 0, 3, 66, 89, 69, 9] = (.ok (some bye), [9]) ∧
      ((take limit).on [127, 0, 0, 1, 0, 0, 27, 88, 0, 0, 0, 3, 66, 89]).1 = .ok none ∧
      ∀ left, (take limit).on [127, 0, 0, 1, 0, 0, 27, 88, 0, 0, 0, 3, 66, 89] = (.ok none, left) →
        left = [127, 0, 0, 1, 0, 0, 27, 88, 0, 0, 0, 3, 66, 89] := by
  intro limit bye
  have hlimit : limit < UInt32.size := by decide
  have hbody : bye.body.length ≤ limit := by decide
  have hoctets : bye.octets = [127, 0, 0, 1, 0, 0, 27, 88, 0, 0, 0, 3, 66, 89, 69] := by decide
  obtain ⟨hput, htake, -, hkeep, hnone⟩ :=
    codec_exact hlimit bye [9] [9] [127, 0, 0, 1, 0, 0, 27, 88, 0, 0, 0, 3, 66, 89]
  rw [if_pos hbody, hoctets] at hput
  rw [hoctets] at htake
  exact ⟨hlimit, hput, htake hbody, hnone.2 (.inr (by decide)), fun left h => hkeep _ left h (by simp)⟩

end Parley.Frame

import Parley.Proofs.Frame.Buffer

/-!
# Headers and the length of the body

A codec may have any limit, and the header of a frame has 32 bits for the length of the body. It tells the length as far as
these bits go (`Frame.announcedLength_octets`). A body that they cannot tell is written all the same, if the limit allows
it; whoever reads takes off the beginning of the body and goes on in the middle of it, as if there were the next frame.

So a frame that was written reads back exactly if its length has 32 bits, and all frames do exactly if the limit has
(`Frame.header_tells_length`). A limit of one more lets a frame through that seems to be empty
(`Frame.announced_as_empty`).
-/

namespace Parley.Frame

variable {limit : Nat} {f : Frame} {written out rest : Bytes}

/-- Octets that hold a frame: the header tells the length of the body, and the frame is taken off with nothing more or
less. -/
structure Holds (limit : Nat) (octets : Bytes) (f : Frame) : Prop where
  length : announcedLength octets = f.body.length
  back : ∀ rest, (take limit).on (octets ++ rest) = (.ok (some f), rest)

/-! ## What is written -/

theorem length_header (f : Frame) : f.header.length = headerLength := by
  obtain ⟨p, q, r, s, hport⟩ := exists_word f.sender.port.toNat
  obtain ⟨k, l, m, n, hlength⟩ := exists_word f.body.length
  rw [header, hport, hlength]
  rfl

theorem length_octets (f : Frame) : f.octets.length = headerLength + f.body.length := by
  rw [octets, List.length_append, length_header]

/-- The header tells the length as far as 32 bits go. -/
theorem announcedLength_octets (f : Frame) : announcedLength f.octets = f.body.length % UInt32.size := by
  obtain ⟨p, q, r, s, hport⟩ := exists_word f.sender.port.toNat
  obtain ⟨k, l, m, n, hlength⟩ := exists_word f.body.length
  have hword : announcedLength f.header = number (word f.body.length) := by
    rw [header, hport, hlength]
    rfl
  rw [octets, announcedLength, wordAt_append (by rw [length_header]; decide), ← announcedLength, hword,
    number_word_eq_mod]

theorem on_put_of_le (hf : f.body.length ≤ limit) (written : Bytes) :
    (put limit f).on written = (.ok (), written ++ f.octets) := by
  rw [on_put, encode_eq hf]

/-- A frame that is accepted is up to the limit, and its octets are appended. -/
theorem of_on_put (h : (put limit f).on written = (.ok (), out)) :
    f.body.length ≤ limit ∧ out = written ++ f.octets := by
  by_cases hf : f.body.length ≤ limit
  · rw [on_put_of_le hf] at h
    exact ⟨hf, (congrArg Prod.snd h).symm⟩
  · rw [on_put, encode_eq_error (Nat.lt_of_not_le hf)] at h
    cases h

/-! ## What is read -/

/-- As much of the body is taken off as the header tells. -/
theorem on_take_octets (hf : f.body.length ≤ limit) (rest : Bytes) :
    (take limit).on (f.octets ++ rest) =
      (.ok (some ⟨f.sender, f.body.take (f.body.length % UInt32.size)⟩),
        f.body.drop (f.body.length % UInt32.size) ++ rest) := by
  rw [on_take, decode_octets_append_of_le hf]

/-- The octets of a frame hold it exactly if 32 bits tell its length. -/
theorem holds_octets_iff (hf : f.body.length ≤ limit) : Holds limit f.octets f ↔ f.body.length < UInt32.size := by
  constructor
  · intro h
    rw [← h.length, announcedLength_octets]
    exact Nat.mod_lt _ (by decide)
  · intro hlen
    have hmod : f.body.length % UInt32.size = f.body.length := Nat.mod_eq_of_lt hlen
    refine ⟨(announcedLength_octets f).trans hmod, fun rest => ?_⟩
    rw [on_take_octets hf, hmod, List.take_length, List.drop_length, List.nil_append]

/-- **The header tells the length of the body exactly if 32 bits do.** A frame that a codec accepts is written with a header
that tells the length of its body modulo `2 ^ 32`, and as much of the body is taken off again. It reads back exactly if its
body is shorter than `2 ^ 32` octets. So every frame that is accepted reads back exactly if the limit is below that. -/
theorem header_tells_length (limit : Nat) :
    (∀ f written out, (put limit f).on written = (.ok (), out) →
      ∃ octets, out = written ++ octets ∧ octets.length = 12 + f.body.length ∧
        announcedLength octets = f.body.length % UInt32.size ∧
        (∀ rest, (take limit).on (octets ++ rest) =
          (.ok (some ⟨f.sender, f.body.take (f.body.length % UInt32.size)⟩),
            f.body.drop (f.body.length % UInt32.size) ++ rest)) ∧
        (Holds limit octets f ↔ f.body.length < UInt32.size)) ∧
      ((∀ f written octets, (put limit f).on written = (.ok (), written ++ octets) → Holds limit octets f) ↔
        limit < UInt32.size) := by
  refine ⟨fun f written out h => ?_, fun h => ?_, fun hlimit f written octets h => ?_⟩
  · obtain ⟨hf, rfl⟩ := of_on_put h
    exact ⟨f.octets, rfl, length_octets f, announcedLength_octets f, on_take_octets hf, holds_octets_iff hf⟩
  · -- the longest frame that is accepted
    have hlen : (List.replicate limit (0 : UInt8)).length = limit := List.length_replicate
    have hheld := h ⟨⟨.loopback, 0⟩, List.replicate limit 0⟩ [] _ (on_put_of_le (Nat.le_of_eq hlen) [])
    exact hlen ▸ (holds_octets_iff (Nat.le_of_eq hlen)).1 hheld
  · obtain ⟨hf, hout⟩ := of_on_put h
    rw [List.append_cancel_left hout]
    exact (holds_octets_iff hf).2 (Nat.lt_of_le_of_lt hf hlimit)

/-- Under the largest limit of 64 bits: a frame whose body has three octets more than `2 ^ 32`. -/
theorem header_tells_length_cut :
    let limit := UInt64.size - 1
    let f : Frame := ⟨⟨.loopback, 7000⟩, List.replicate (UInt32.size + 3) 7⟩
    (put limit f).on [] = (.ok (), f.octets) ∧ announcedLength f.octets = 3 ∧
      (take limit).on (f.octets ++ [9]) = (.ok (some ⟨f.sender, [7, 7, 7]⟩), List.replicate UInt32.size 7 ++ [9]) ∧
      ¬ Holds limit f.octets f := by
  intro limit f
  have hlen : f.body.length = UInt32.size + 3 := List.length_replicate
  have hmod : f.body.length % UInt32.size = 3 := by rw [hlen]; decide
  have hput : (put limit f).on [] = (.ok (), f.octets) := on_put_of_le (by rw [hlen]; decide) []
  obtain ⟨octets, hout, -, hannounced, htake, hholds⟩ := (header_tells_length limit).1 f [] f.octets hput
  rw [List.nil_append] at hout
  subst hout
  have hbegin : f.body.take 3 = [7, 7, 7] := List.take_replicate
  have hend : f.body.drop 3 = List.replicate UInt32.size 7 := List.drop_replicate
  refine ⟨hput, hannounced.trans hmod, ?_, fun hheld => ?_⟩
  · rw [htake, hmod, hbegin, hend]
  · have hlt := hholds.1 hheld
    rw [hlen] at hlt
    exact absurd hlt (by decide)

/-- A body of `2 ^ 32` octets under a limit of as many: the header announces none. -/
theorem announced_as_empty :
    ¬ ∀ limit < UInt64.size, ∀ f written octets, (put limit f).on written = (.ok (), written ++ octets) →
      Holds limit octets f := by
  intro h
  have hlen : (List.replicate UInt32.size (0 : UInt8)).length = UInt32.size := List.length_replicate
  have hheld := h UInt32.size (by decide) ⟨⟨.loopback, 7000⟩, List.replicate UInt32.size 0⟩ [] _
    (on_put_of_le (Nat.le_of_eq hlen) [])
  have hzero : announcedLength (octets ⟨⟨.loopback, 7000⟩, List.replicate UInt32.size 0⟩) = 0 := by
    rw [announcedLength_octets, hlen]
    exact Nat.mod_self _
  have hall := hheld.length
  rw [hzero, hlen] at hall
  exact absurd hall (by decide)

end Parley.Frame

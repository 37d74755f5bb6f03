import Parley.Text.Utf8

/-!
# Reading back UTF-8

What `Utf8.encode` writes, `Utf8.decode` reads (`decode_encode`). A character takes one to four octets; the decoder tells
the four forms apart by the first octet (`decodeHead_one`, `decodeHead_two`, `decodeHead_three`, `decodeHead_four`).
-/

namespace Parley.Utf8

/-! ## The four forms -/

theorem isTail_iff {b : UInt8} : isTail b = true ↔ 0x80 ≤ b.toNat ∧ b.toNat ≤ 0xBF := by
  simp [isTail, UInt8.le_iff_toNat_le]

theorem isSecondOfThree_iff {b c : UInt8} : isSecondOfThree b c = true ↔
    (b.toNat = 0xE0 ∧ 0xA0 ≤ c.toNat ∧ c.toNat ≤ 0xBF) ∨ (b.toNat = 0xED ∧ 0x80 ≤ c.toNat ∧ c.toNat ≤ 0x9F) ∨
      (b.toNat ≠ 0xE0 ∧ b.toNat ≠ 0xED ∧ 0x80 ≤ c.toNat ∧ c.toNat ≤ 0xBF) := by
  simp [isSecondOfThree, isTail, UInt8.le_iff_toNat_le, ← UInt8.toNat_inj, and_assoc, or_assoc]

theorem isSecondOfFour_iff {b c : UInt8} : isSecondOfFour b c = true ↔
    (b.toNat = 0xF0 ∧ 0x90 ≤ c.toNat ∧ c.toNat ≤ 0xBF) ∨ (b.toNat = 0xF4 ∧ 0x80 ≤ c.toNat ∧ c.toNat ≤ 0x8F) ∨
      (b.toNat ≠ 0xF0 ∧ b.toNat ≠ 0xF4 ∧ 0x80 ≤ c.toNat ∧ c.toNat ≤ 0xBF) := by
  simp [isSecondOfFour, isTail, UInt8.le_iff_toNat_le, ← UInt8.toNat_inj, and_assoc, or_assoc]

theorem decodeHead_one {b : UInt8} (h : b.toNat < 0x80) (rest : Bytes) :
    decodeHead b rest = .ok (Char.ofNat b.toNat, 1) := by
  simp [decodeHead, UInt8.lt_iff_toNat_lt, h]

theorem decodeHead_two {b c : UInt8} (hb : 0xC2 ≤ b.toNat ∧ b.toNat ≤ 0xDF) (hc : isTail c = true) (rest : Bytes) :
    decodeHead b (c :: rest) = .ok (Char.ofNat ((b.toNat - 0xC0) * 64 + (c.toNat - 0x80)), 2) := by
  have h₁ : ¬ b.toNat < 0x80 := by omega
  simp [decodeHead, UInt8.lt_iff_toNat_lt, UInt8.le_iff_toNat_le, h₁, hb, hc]

theorem decodeHead_three {b c d : UInt8} (hb : 0xE0 ≤ b.toNat ∧ b.toNat ≤ 0xEF) (hc : isSecondOfThree b c = true)
    (hd : isTail d = true) (rest : Bytes) :
    decodeHead b (c :: d :: rest) =
      .ok (Char.ofNat ((b.toNat - 0xE0) * 4096 + (c.toNat - 0x80) * 64 + (d.toNat - 0x80)), 3) := by
  have h₁ : ¬ b.toNat < 0x80 := by omega
  have h₂ : ¬ b.toNat ≤ 0xDF := by omega
  simp [decodeHead, UInt8.lt_iff_toNat_lt, UInt8.le_iff_toNat_le, h₁, h₂, hb, hc, hd]

theorem decodeHead_four {b c d e : UInt8} (hb : 0xF0 ≤ b.toNat ∧ b.toNat ≤ 0xF4) (hc : isSecondOfFour b c = true)
    (hd : isTail d = true) (he : isTail e = true) (rest : Bytes) :
    decodeHead b (c :: d :: e :: rest) = .ok (Char.ofNat ((b.toNat - 0xF0) * 262144 + (c.toNat - 0x80) * 4096 +
      (d.toNat - 0x80) * 64 + (e.toNat - 0x80)), 4) := by
  have h₁ : ¬ b.toNat < 0x80 := by omega
  have h₂ : ¬ b.toNat ≤ 0xDF := by omega
  have h₃ : ¬ b.toNat ≤ 0xEF := by omega
  simp [decodeHead, UInt8.lt_iff_toNat_lt, UInt8.le_iff_toNat_le, h₁, h₂, h₃, hb, hc, hd, he]

/-! ## Characters -/

/-- A code point is no surrogate, and there is a last one. -/
theorem toNat_valid (c : Char) : c.toNat < 0xD800 ∨ 0xDFFF < c.toNat ∧ c.toNat < 0x110000 := c.valid

theorem ofNat_eq_of_eq {c : Char} {n : Nat} (h : n = c.toNat) : Char.ofNat n = c := h ▸ Char.ofNat_toNat c

/-- A character is read off its octets, whatever comes behind them. -/
theorem decodeHead_encodeChar (c : Char) : ∃ b bs, String.utf8EncodeChar c = b :: bs ∧
    ∀ rest, decodeHead b (bs ++ rest) = .ok (c, bs.length + 1) := by
  have hvalid := toNat_valid c
  have hoctet : ∀ n, n < 256 → (UInt8.ofNat n).toNat = n := fun n h => UInt8.toNat_ofNat_of_lt' h
  have htail : ∀ n, isTail (UInt8.ofNat (n % 0x40 + 0x80)) = true := by
    intro n
    rw [isTail_iff, hoctet _ (by omega)]
    omega
  unfold String.utf8EncodeChar
  rw [Char.toNat_val]
  dsimp only
  split
  · refine ⟨_, _, rfl, fun rest => ?_⟩
    have hb := hoctet c.toNat (by omega)
    rw [List.nil_append, decodeHead_one (by omega), hb, Char.ofNat_toNat]
    rfl
  split
  · refine ⟨_, _, rfl, fun rest => ?_⟩
    have hb := hoctet (c.toNat / 64 % 0x20 + 0xc0) (by omega)
    have hc := hoctet (c.toNat % 0x40 + 0x80) (by omega)
    rw [List.cons_append, List.nil_append, decodeHead_two (by omega) (htail _), ofNat_eq_of_eq (c := c) (by omega)]
    rfl
  split
  · refine ⟨_, _, rfl, fun rest => ?_⟩
    have hb := hoctet (c.toNat / 4096 % 0x10 + 0xe0) (by omega)
    have hc := hoctet (c.toNat / 64 % 0x40 + 0x80) (by omega)
    have hd := hoctet (c.toNat % 0x40 + 0x80) (by omega)
    have hsecond : isSecondOfThree (UInt8.ofNat (c.toNat / 4096 % 0x10 + 0xe0))
        (UInt8.ofNat (c.toNat / 64 % 0x40 + 0x80)) = true := by
      rw [isSecondOfThree_iff, hb, hc]
      omega
    rw [List.cons_append, List.cons_append, List.nil_append, decodeHead_three (by omega) hsecond (htail _),
      ofNat_eq_of_eq (c := c) (by omega)]
    rfl
  · refine ⟨_, _, rfl, fun rest => ?_⟩
    have hb := hoctet (c.toNat / 262144 % 0x08 + 0xf0) (by omega)
    have hc := hoctet (c.toNat / 4096 % 0x40 + 0x80) (by omega)
    have hd := hoctet (c.toNat / 64 % 0x40 + 0x80) (by omega)
    have he := hoctet (c.toNat % 0x40 + 0x80) (by omega)
    have hsecond : isSecondOfFour (UInt8.ofNat (c.toNat / 262144 % 0x08 + 0xf0))
        (UInt8.ofNat (c.toNat / 4096 % 0x40 + 0x80)) = true := by
      rw [isSecondOfFour_iff, hb, hc]
      omega
    rw [List.cons_append, List.cons_append, List.cons_append, List.nil_append,
      decodeHead_four (by omega) hsecond (htail _) (htail _), ofNat_eq_of_eq (c := c) (by omega)]
    rfl

/-! ## Texts -/

theorem decodeFrom_encode (pos : Nat) (done cs : List Char) :
    decodeFrom pos done (encode cs) = .ok (done.reverse ++ cs) := by
  induction cs generalizing pos done with
  | nil => simp [encode, decodeFrom]
  | cons c cs ih =>
    obtain ⟨b, bs, he, hd⟩ := decodeHead_encodeChar c
    have hcons : encode (c :: cs) = b :: (bs ++ encode cs) := by simp [encode, he]
    rw [hcons, decodeFrom, hd]
    dsimp only
    rw [Nat.add_sub_cancel, List.drop_left, ih]
    simp

/-- A character of ASCII is the octet of its number. -/
theorem encode_of_ascii {cs : List Char} (h : ∀ c ∈ cs, c.toNat < 0x80) :
    encode cs = cs.map fun c => UInt8.ofNat c.toNat := by
  induction cs with
  | nil => rfl
  | cons c cs ih =>
    rw [List.forall_mem_cons] at h
    have hc : String.utf8EncodeChar c = [UInt8.ofNat c.toNat] := if_pos (Nat.le_of_lt_succ h.1)
    have hcons : encode (c :: cs) = String.utf8EncodeChar c ++ encode cs := rfl
    rw [hcons, hc, ih h.2]
    rfl

theorem length_encode_of_ascii {cs : List Char} (h : ∀ c ∈ cs, c.toNat < 0x80) : (encode cs).length = cs.length := by
  rw [encode_of_ascii h, List.length_map]

theorem encode_ne_nil {cs : List Char} (h : cs ≠ []) : encode cs ≠ [] := by
  obtain ⟨c, cs, rfl⟩ := List.exists_cons_of_ne_nil h
  obtain ⟨b, bs, hc, -⟩ := decodeHead_encodeChar c
  simp [encode, hc]

theorem length_encode_append (cs ds : List Char) : (encode (cs ++ ds)).length = (encode cs).length + (encode ds).length := by
  rw [encode, List.flatMap_append, List.length_append]
  rfl

/-- What is written reads back. -/
theorem decode_encode (cs : List Char) : decode (encode cs) = .ok cs := decodeFrom_encode 0 [] cs

end Parley.Utf8

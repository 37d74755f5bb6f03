import Mathlib.Data.Finite.Prod
import Parley.Cipher.Chaining

/-!
# Ciphers for byte strings

A cipher for single blocks that reads back makes a cipher for byte strings that reads back: `BlockCipher.decryptBytes` is the
exact partial inverse of `BlockCipher.encryptBytes` (`BlockCipher.Invertible.opens_encryptions_only`), whatever the cipher is
and whichever block the chain starts from. Every stage has an inverse, in both directions:

* single blocks, because there are finitely many and no two of them are encrypted alike (`BlockCipher.Invertible.encrypt_decrypt`);
* cutting and joining, if nothing is left over (`Block.join_ofBytes`);
* chains of blocks, from the first block on (`Chaining.decrypt_encrypt`, `Chaining.encrypt_decrypt`);
* fillings, because the last octet says how much was filled up (`Padding.strip?_fill`), and what is left after a filling
  determines it (`Padding.fill_of_strip?`).
-/

namespace Parley

/-! ## Blocks -/

theorem xor_cancel (a b : UInt8) : a ^^^ b ^^^ b = a := by
  rw [UInt8.xor_assoc, UInt8.xor_self, UInt8.xor_zero]

theorem Column.xor_cancel (a b : Column) : (a.xor b).xor b = a := by
  simp only [Column.xor, Parley.xor_cancel]

theorem Block.xor_cancel (s t : Block) : (s.xor t).xor t = s := by
  simp only [Block.xor, Column.xor_cancel]

/-- The four octets of a column as numbers. -/
def Column.toFins (a : Column) : Fin UInt8.size × Fin UInt8.size × Fin UInt8.size × Fin UInt8.size :=
  (a.w.toFin, a.x.toFin, a.y.toFin, a.z.toFin)

theorem Column.toFins_injective : Function.Injective Column.toFins := by
  rintro ⟨w, x, y, z⟩ ⟨w', x', y', z'⟩ h
  simp only [toFins, Prod.mk.injEq, UInt8.toFin_inj] at h
  obtain ⟨rfl, rfl, rfl, rfl⟩ := h
  rfl

instance : Finite Column := .of_injective _ Column.toFins_injective

instance : Finite Block :=
  .of_injective (fun s : Block => (s.a, s.b, s.c, s.d)) fun s t h => by
    obtain ⟨a, b, c, d⟩ := s
    obtain ⟨a', b', c', d'⟩ := t
    simp only [Prod.mk.injEq] at h
    obtain ⟨rfl, rfl, rfl, rfl⟩ := h
    rfl

namespace Block

theorem join_cons (s : Block) (bs : List Block) : join (s :: bs) = s.bytes ++ join bs := rfl

/-- Sixteen octets are a block. -/
theorem exists_bytes {bs : Bytes} (hlen : bs.length = size) : ∃ s : Block, s.bytes = bs := by
  match bs, hlen with
  | [a, b, c, d, e, f, g, h, i, j, k, l, m, n, o, p], _ =>
    exact ⟨⟨⟨a, b, c, d⟩, ⟨e, f, g, h⟩, ⟨i, j, k, l⟩, ⟨m, n, o, p⟩⟩, rfl⟩

/-- Joining undoes cutting, if nothing is left over. -/
theorem join_ofBytes {n : Nat} {bs : Bytes} (h : bs.length = size * n) : join (ofBytes bs) = bs := by
  induction n generalizing bs with
  | zero =>
    obtain rfl : bs = [] := List.length_eq_zero_iff.1 h
    rfl
  | succ n ih =>
    have hfirst : (bs.take size).length = size := by
      rw [List.length_take, h, Nat.mul_succ]
      omega
    have hrest : (bs.drop size).length = size * n := by
      rw [List.length_drop, h, Nat.mul_succ]
      omega
    obtain ⟨s, hs⟩ := exists_bytes hfirst
    have hbs : bs = s.bytes ++ bs.drop size := by rw [hs, List.take_append_drop]
    rw [hbs, ofBytes_bytes_append, join_cons, ih hrest]

theorem length_join (bs : List Block) : (join bs).length = size * bs.length := by
  induction bs with
  | nil => rfl
  | cons s bs ih =>
    rw [join_cons, List.length_append, ih, length_bytes, List.length_cons, size]
    omega

end Block

/-! ## Filling -/

namespace Padding

theorem amount_pos (n : Nat) : 1 ≤ amount n := by
  unfold amount Block.size
  omega

theorem amount_le (n : Nat) : amount n ≤ Block.size := by
  unfold amount
  omega

theorem length_fill (bs : Bytes) : (fill bs).length = Block.size * (bs.length / Block.size + 1) := by
  rw [fill, List.length_append, List.length_replicate, amount, Block.size]
  omega

/-- What is filled up is taken off again. -/
theorem strip?_fill (bs : Bytes) : strip? (fill bs) = some bs := by
  have hpos := amount_pos bs.length
  have hle := amount_le bs.length
  have hlast : (fill bs).getLast? = some (UInt8.ofNat (amount bs.length)) := by
    rw [fill, List.getLast?_append, List.getLast?_replicate, if_neg (by omega), Option.some_or]
  have hvalue : (UInt8.ofNat (amount bs.length)).toNat = amount bs.length := by
    apply UInt8.toNat_ofNat_of_lt'
    change amount bs.length < 256
    unfold Block.size at hle
    omega
  have hlen : (fill bs).length = bs.length + amount bs.length := by
    rw [fill, List.length_append, List.length_replicate]
  have hdrop : (fill bs).length - amount bs.length = bs.length := by omega
  unfold strip?
  rw [hlast]
  dsimp only
  rw [hvalue, hdrop, if_pos ⟨hpos, hle, by omega, List.drop_left⟩, fill, List.take_left]

/-- Whole blocks with a filling at the end are what was filled up. -/
theorem fill_of_strip? {bs plain : Bytes} (hwhole : bs.length % Block.size = 0) (h : strip? bs = some plain) :
    fill plain = bs := by
  unfold strip? at h
  split at h
  · cases h
  · rename_i b _
    dsimp only at h
    split at h
    · rename_i hb
      obtain ⟨hpos, hle, hlen, hfilling⟩ := hb
      obtain rfl := Option.some.inj h
      -- the filling is as long as it has to be, since it is at most a block and what it fills up are whole blocks
      have hrest : (bs.take (bs.length - b.toNat)).length = bs.length - b.toNat := by
        rw [List.length_take]
        omega
      have hamount : amount (bs.length - b.toNat) = b.toNat := by
        unfold amount Block.size at *
        omega
      rw [fill, hrest, hamount, UInt8.ofNat_toNat, ← hfilling, List.take_append_drop]
    · cases h

theorem length_ofBytes_fill (plain : Bytes) :
    (Block.ofBytes (fill plain)).length = plain.length / Block.size + 1 := by
  have hlen := length_fill plain
  have hjoin := Block.length_join (Block.ofBytes (fill plain))
  rw [Block.join_ofBytes hlen, hlen] at hjoin
  exact (Nat.eq_of_mul_eq_mul_left (by decide) hjoin).symm

end Padding

/-! ## Chaining -/

namespace Chaining

theorem length_encrypt (cipher : BlockCipher) (previous : Block) (ps : List Block) :
    (encrypt cipher previous ps).length = ps.length := by
  induction ps generalizing previous with
  | nil => rfl
  | cons p ps ih => rw [encrypt, List.length_cons, List.length_cons, ih]

/-- Chained blocks read back if single blocks do. -/
theorem decrypt_encrypt {cipher : BlockCipher} (h : ∀ s, cipher.decrypt (cipher.encrypt s) = s) (previous : Block)
    (ps : List Block) : decrypt cipher previous (encrypt cipher previous ps) = ps := by
  induction ps generalizing previous with
  | nil => rfl
  | cons p ps ih => rw [encrypt, decrypt, h, Block.xor_cancel, ih]

/-- Any blocks are the encryption of those that they decrypt to, if single blocks are. -/
theorem encrypt_decrypt {cipher : BlockCipher} (h : ∀ s, cipher.encrypt (cipher.decrypt s) = s) (previous : Block)
    (cs : List Block) : encrypt cipher previous (decrypt cipher previous cs) = cs := by
  induction cs generalizing previous with
  | nil => rfl
  | cons c cs ih =>
    rw [decrypt, encrypt, Block.xor_cancel, h]
    exact congrArg (c :: ·) (ih c)

end Chaining

/-! ## Byte strings -/

/-- Octets that are no whole number of blocks, or none at all. -/
def Ragged (bs : Bytes) : Prop := bs = [] ∨ bs.length % Block.size ≠ 0

namespace BlockCipher

/-- Decrypting a block undoes encrypting it. -/
def Invertible (cipher : BlockCipher) : Prop := Function.LeftInverse cipher.decrypt cipher.encrypt

section Refusals

variable (cipher : BlockCipher) (start : Block) {ciphertext : Bytes}

theorem length_encryptBytes (plain : Bytes) :
    (cipher.encryptBytes start plain).length = Block.size * (plain.length / Block.size + 1) := by
  rw [encryptBytes, Block.length_join, Chaining.length_encrypt, Padding.length_ofBytes_fill]

theorem decryptBytes_of_ragged (h : Ragged ciphertext) :
    cipher.decryptBytes start ciphertext = .error (.blockSize ciphertext.length) := by
  rw [decryptBytes, if_pos (by rwa [List.isEmpty_iff])]

/-- Of whole blocks, the filling decides. -/
theorem decryptBytes_of_whole (h : ¬ Ragged ciphertext) :
    cipher.decryptBytes start ciphertext =
      match Padding.strip? (Block.join (Chaining.decrypt cipher start (Block.ofBytes ciphertext))) with
      | some plain => .ok plain
      | none => .error .padding := by
  unfold decryptBytes
  exact if_neg (by rwa [List.isEmpty_iff])

variable {cipher start} {f : Cipher.Fault}

theorem fault_of_whole (h : ¬ Ragged ciphertext) (hf : cipher.decryptBytes start ciphertext = .error f) : f = .padding := by
  rw [decryptBytes_of_whole cipher start h] at hf
  split at hf
  · cases hf
  · exact (Except.error.inj hf).symm

theorem decryptBytes_eq_blockSize_iff {n : Nat} :
    cipher.decryptBytes start ciphertext = .error (.blockSize n) ↔ n = ciphertext.length ∧ Ragged ciphertext := by
  constructor
  · intro h
    by_cases hr : Ragged ciphertext
    · rw [decryptBytes_of_ragged cipher start hr] at h
      cases h
      exact ⟨rfl, hr⟩
    · cases fault_of_whole hr h
  · rintro ⟨rfl, hr⟩
    exact decryptBytes_of_ragged cipher start hr

end Refusals

namespace Invertible

variable {cipher : BlockCipher} (h : cipher.Invertible) {start : Block} {plain ciphertext : Bytes}
include h

/-- Every block is the encryption of the one that it decrypts to. -/
theorem encrypt_decrypt (s : Block) : cipher.encrypt (cipher.decrypt s) = s := by
  have honto : Function.Surjective cipher.encrypt := Finite.surjective_of_injective (Function.LeftInverse.injective h)
  exact Function.LeftInverse.rightInverse_of_surjective h honto s

/-- Every byte string reads back. -/
theorem decryptBytes_encryptBytes (start : Block) (plain : Bytes) :
    cipher.decryptBytes start (cipher.encryptBytes start plain) = .ok plain := by
  have hlen := cipher.length_encryptBytes start plain
  have hwhole : ¬ Ragged (cipher.encryptBytes start plain) := by
    rintro (hnil | hrest)
    · rw [hnil] at hlen
      exact absurd hlen (Nat.mul_pos (by decide) (Nat.succ_pos _)).ne
    · exact hrest (by rw [hlen, Nat.mul_mod_right])
  rw [decryptBytes_of_whole cipher start hwhole, encryptBytes, Block.ofBytes_join, Chaining.decrypt_encrypt h,
    Block.join_ofBytes (Padding.length_fill plain), Padding.strip?_fill]

/-- What decrypts is the encryption of what it decrypts to. -/
theorem encryptBytes_of_decryptBytes (hd : cipher.decryptBytes start ciphertext = .ok plain) :
    cipher.encryptBytes start plain = ciphertext := by
  by_cases hr : Ragged ciphertext
  · rw [decryptBytes_of_ragged cipher start hr] at hd
    cases hd
  · rw [decryptBytes_of_whole cipher start hr] at hd
    split at hd
    · rename_i stripped hs
      obtain rfl := Except.ok.inj hd
      obtain ⟨n, hn⟩ : Block.size ∣ ciphertext.length := Nat.dvd_of_mod_eq_zero (not_not.1 (not_or.1 hr).2)
      have hwhole : (Block.join (Chaining.decrypt cipher start (Block.ofBytes ciphertext))).length % Block.size = 0 := by
        rw [Block.length_join, Nat.mul_mod_right]
      rw [encryptBytes, Padding.fill_of_strip? hwhole hs, Block.ofBytes_join, Chaining.encrypt_decrypt h.encrypt_decrypt,
        Block.join_ofBytes hn]
    · cases hd

theorem decryptBytes_eq_ok_iff :
    cipher.decryptBytes start ciphertext = .ok plain ↔ ciphertext = cipher.encryptBytes start plain :=
  ⟨fun hd => (h.encryptBytes_of_decryptBytes hd).symm, fun he => he ▸ h.decryptBytes_encryptBytes start plain⟩

theorem decryptBytes_eq_padding_iff :
    cipher.decryptBytes start ciphertext = .error .padding ↔
      ¬ Ragged ciphertext ∧ ∀ p, ciphertext ≠ cipher.encryptBytes start p := by
  constructor
  · intro hd
    refine ⟨fun hr => ?_, fun p hp => ?_⟩
    · rw [decryptBytes_of_ragged cipher start hr] at hd
      cases hd
    · rw [h.decryptBytes_eq_ok_iff.2 hp] at hd
      cases hd
  · rintro ⟨hwhole, hnone⟩
    cases hd : cipher.decryptBytes start ciphertext with
    | ok p => exact absurd (h.decryptBytes_eq_ok_iff.1 hd) (hnone p)
    | error f => rw [fault_of_whole hwhole hd]

/-- **Decryption is the exact partial inverse of encryption**, for every cipher that reads back on single blocks. A byte string
decrypts to another one exactly if it is the encryption of that one, which has one block more than there are whole blocks in
it. All else is refused: for its length exactly if it is empty or no whole number of blocks, and otherwise for its filling. -/
theorem opens_encryptions_only (start : Block) (plain ciphertext : Bytes) :
    (cipher.decryptBytes start ciphertext = .ok plain ↔ ciphertext = cipher.encryptBytes start plain) ∧
      (cipher.encryptBytes start plain).length = 16 * (plain.length / 16 + 1) ∧
      (∀ n, cipher.decryptBytes start ciphertext = .error (.blockSize n) ↔
        n = ciphertext.length ∧ (ciphertext = [] ∨ ciphertext.length % 16 ≠ 0)) ∧
      (cipher.decryptBytes start ciphertext = .error .padding ↔
        ¬ (ciphertext = [] ∨ ciphertext.length % 16 ≠ 0) ∧ ∀ p, ciphertext ≠ cipher.encryptBytes start p) ∧
      ∀ f, cipher.decryptBytes start ciphertext = .error f → f = .blockSize ciphertext.length ∨ f = .padding := by
  refine ⟨h.decryptBytes_eq_ok_iff, cipher.length_encryptBytes start plain, fun n => decryptBytes_eq_blockSize_iff,
    h.decryptBytes_eq_padding_iff, fun f hf => ?_⟩
  by_cases hr : Ragged ciphertext
  · rw [decryptBytes_of_ragged cipher start hr] at hf
    exact .inl (Except.error.inj hf).symm
  · exact .inr (fault_of_whole hr hf)

end Invertible

end BlockCipher
end Parley

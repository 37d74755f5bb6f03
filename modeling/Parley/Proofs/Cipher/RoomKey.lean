import Parley.Cipher.RoomKey
import Parley.Proofs.Cipher.Aes
import Parley.Proofs.Message.RoundTrip

/-!
# Room keys

The cipher under a room key is invertible (`RoomKey.invertible_cipher`). So every byte string reads back
(`RoomKey.decrypt_encrypt`), and nothing decrypts but what was encrypted (`RoomKey.decrypts_ciphertexts_only`). Every envelope
with a message that can travel as plain text reads back as well (`RoomKey.openEnvelope_sealEnvelope`).
-/

namespace Parley

namespace RoomKey

variable (k : RoomKey)

/-- Under a room key single blocks read back. -/
theorem invertible_cipher : k.cipher.Invertible := Aes.decrypt_encrypt (Aes.schedule k.block)

theorem length_encrypt (plain : Bytes) :
    (k.encrypt plain).length = Block.size * (plain.length / Block.size + 1) :=
  k.cipher.length_encryptBytes start plain

/-- Every byte string reads back. -/
theorem decrypt_encrypt (plain : Bytes) : k.decrypt (k.encrypt plain) = .ok plain :=
  k.invertible_cipher.decryptBytes_encryptBytes start plain

/-- **Decryption is the exact partial inverse of encryption.** A byte string decrypts to another one exactly if it is the
encryption of that one, which has one block more than there are whole blocks in it. All else is refused: for its length
exactly if it is empty or no whole number of blocks, and otherwise for its filling. -/
theorem decrypts_ciphertexts_only (k : RoomKey) (plain ciphertext : Bytes) :
    (k.decrypt ciphertext = .ok plain ↔ ciphertext = k.encrypt plain) ∧
      (k.encrypt plain).length = 16 * (plain.length / 16 + 1) ∧
      (∀ n, k.decrypt ciphertext = .error (.blockSize n) ↔
        n = ciphertext.length ∧ (ciphertext = [] ∨ ciphertext.length % 16 ≠ 0)) ∧
      (k.decrypt ciphertext = .error .padding ↔
        ¬ (ciphertext = [] ∨ ciphertext.length % 16 ≠ 0) ∧ ∀ p, ciphertext ≠ k.encrypt p) ∧
      ∀ f, k.decrypt ciphertext = .error f → f = .blockSize ciphertext.length ∨ f = .padding :=
  k.invertible_cipher.opens_encryptions_only start plain ciphertext

/-- A sealed message is what it was before, under the sender it had. -/
theorem openEnvelope_sealEnvelope {e : Envelope} (h : e.message.isWireValid = true) :
    k.sealEnvelope e = .ok ⟨e.sender, .sealed (k.encrypt e.message.bodyBytes)⟩ ∧
      k.openEnvelope ⟨e.sender, .sealed (k.encrypt e.message.bodyBytes)⟩ = .ok e := by
  obtain ⟨sender, m⟩ := e
  constructor
  · cases m with
    | sealed ciphertext => simp [Message.isWireValid] at h
    | _ => rfl
  · have hread : Message.ofBody m.bodyBytes = .ok m := by
      rw [Message.bodyBytes, Message.ofBody_encode, Message.ofBodyChars_bodyChars h]
    simp only [openEnvelope, decrypt_encrypt, ofPlain, hread, bind, Except.bind, pure, Except.pure]

end RoomKey
end Parley

import Parley.Cipher.Aes
import Parley.Cipher.ChaCha20
import Parley.Cipher.Chaining
import Parley.Cipher.Sha256
import Parley.Envelope

/-!
# Room keys

Whoever knows the passphrase of a room knows its key: the first block of the ChaCha20 key stream under the SHA-256 hash of
the passphrase. Under a room key, byte strings are encrypted with AES-128, filled up and chained from a block that all
rooms share. `RoomKey.sealEnvelope` and `RoomKey.openEnvelope` do so with the bodies of messages, and leave the sender as it is;
`RoomKey.sealAdvert` and `RoomKey.openAdvert` with the identity of a host, for the directory to keep.
-/

namespace Parley

/-- The key of a room. -/
structure RoomKey where
  block : Block
  deriving DecidableEq, Repr

namespace RoomKey

/-- The block that every chain starts from. -/
def start : Block := ⟨⟨10, 10, 19, 94⟩, ⟨3, 56, 19, 120⟩, ⟨20, 1, 77, 69⟩, ⟨9, 14, 99, 111⟩⟩

/-- A block of zeros. -/
def zeroBlock : Block := ⟨⟨0, 0, 0, 0⟩, ⟨0, 0, 0, 0⟩, ⟨0, 0, 0, 0⟩, ⟨0, 0, 0, 0⟩⟩

/-- The key of the room with the given passphrase. -/
def ofPassphrase (passphrase : Bytes) : RoomKey :=
  ⟨(Block.ofBytes (ChaCha20.block (Sha256.hash passphrase) 0)).headD zeroBlock⟩

/-- The block cipher under a key. -/
def cipher (k : RoomKey) : BlockCipher :=
  let ks := Aes.schedule k.block
  ⟨Aes.encrypt ks, Aes.decrypt ks⟩

/-- Encrypts a byte string. -/
def encrypt (k : RoomKey) (plain : Bytes) : Bytes := k.cipher.encryptBytes start plain

/-- Decrypts a byte string. -/
def decrypt (k : RoomKey) (ciphertext : Bytes) : Except Cipher.Fault Bytes := k.cipher.decryptBytes start ciphertext

/-- Turns a fault of a decrypted message into one of the sealed message. -/
def ofPlain {α : Type} : Except Message.Fault α → Except Cipher.Fault α
  | .ok a => .ok a
  | .error f => .error (.message f)

/-- Seals the message of an envelope. -/
def sealEnvelope (k : RoomKey) (e : Envelope) : Except Cipher.Fault Envelope :=
  match e.message with
  | .sealed _ => .error .alreadySealed
  | m => .ok ⟨e.sender, .sealed (k.encrypt m.bodyBytes)⟩

/-- Opens a sealed envelope. -/
def openEnvelope (k : RoomKey) (e : Envelope) : Except Cipher.Fault Envelope :=
  match e.message with
  | .sealed ciphertext => do
    let plain ← k.decrypt ciphertext
    let m ← ofPlain (Message.ofBody plain)
    return ⟨e.sender, m⟩
  | m => .error (.notSealed m.label)

/-- The sealed identity of a host, as it stands in the directory. -/
def sealAdvert (k : RoomKey) (host : Identity) : Bytes := k.encrypt (Utf8.encode host.wireChars)

/-- The host that a directory entry advertises. -/
def openAdvert (k : RoomKey) (entry : Bytes) : Except Cipher.Fault Identity := do
  let plain ← k.decrypt entry
  let text ← ofPlain (Message.textOf plain)
  ofPlain (Identity.ofWire .hostRoom text)

/-- How a key is shown: without the key. -/
def shown (_ : RoomKey) : String := "EncryptionEngine \x7b key: \"<redacted>\" \x7d"

end RoomKey
end Parley

import Parley.Cipher.Block
import Parley.Cipher.Fault

/-!
# Chained blocks

A block cipher is made a cipher for byte strings of any length in two steps. `Padding.fill` fills a byte string up to
whole blocks: `n` octets of value `n`, at least one. `Chaining.encrypt` adds to every block the one encrypted before it,
starting from a given block, and then encrypts it. `BlockCipher.encryptBytes` and `BlockCipher.decryptBytes` do both.
-/

namespace Parley

/-- A cipher for single blocks. -/
structure BlockCipher where
  encrypt : Block → Block
  decrypt : Block → Block

namespace Padding

/-- How many octets fill up a byte string of the given length. -/
def amount (length : Nat) : Nat := Block.size - length % Block.size

/-- Fills a byte string up to whole blocks. -/
def fill (bs : Bytes) : Bytes := bs ++ List.replicate (amount bs.length) (UInt8.ofNat (amount bs.length))

/-- Takes the filling off again; `none` if the octets at the end are no filling. -/
def strip? (bs : Bytes) : Option Bytes :=
  match bs.getLast? with
  | none => none
  | some b =>
    let n := b.toNat
    if 1 ≤ n ∧ n ≤ Block.size ∧ n ≤ bs.length ∧ bs.drop (bs.length - n) = List.replicate n b then
      some (bs.take (bs.length - n))
    else none

end Padding

namespace Chaining

/-- Encrypts blocks, each one added to the result before it. -/
def encrypt (cipher : BlockCipher) : Block → List Block → List Block
  | _, [] => []
  | previous, p :: ps =>
    let c := cipher.encrypt (p.xor previous)
    c :: encrypt cipher c ps

/-- Undoes `encrypt`. -/
def decrypt (cipher : BlockCipher) : Block → List Block → List Block
  | _, [] => []
  | previous, c :: cs => (cipher.decrypt c).xor previous :: decrypt cipher c cs

end Chaining

namespace BlockCipher

/-- Encrypts a byte string, filled up and chained from a given block. -/
def encryptBytes (cipher : BlockCipher) (start : Block) (plain : Bytes) : Bytes :=
  Block.join (Chaining.encrypt cipher start (Block.ofBytes (Padding.fill plain)))

/-- Decrypts a byte string. -/
def decryptBytes (cipher : BlockCipher) (start : Block) (ciphertext : Bytes) : Except Cipher.Fault Bytes :=
  if ciphertext.isEmpty ∨ ciphertext.length % Block.size ≠ 0 then .error (.blockSize ciphertext.length)
  else
    match Padding.strip? (Block.join (Chaining.decrypt cipher start (Block.ofBytes ciphertext))) with
    | some plain => .ok plain
    | none => .error .padding

end BlockCipher
end Parley

import Parley.Cipher.Block

/-!
# AES-128

The block cipher of FIPS 197 with a key of one block. A round substitutes every octet, shifts the rows, mixes the columns
and adds a round key; the last round does not mix. `Aes.encrypt` and `Aes.decrypt` run the rounds in opposite orders:
decryption is a fold from the right over the same round keys.
-/

namespace Parley.Aes

/-- The substitution box: inversion in the field of 256 elements, followed by an affine map. -/
def substitution : Array UInt8 := #[
  0x63, 0x7c, 0x77, 0x7b, 0xf2, 0x6b, 0x6f, 0xc5, 0x30, 0x01, 0x67, 0x2b, 0xfe, 0xd7, 0xab, 0x76,
  0xca, 0x82, 0xc9, 0x7d, 0xfa, 0x59, 0x47, 0xf0, 0xad, 0xd4, 0xa2, 0xaf, 0x9c, 0xa4, 0x72, 0xc0,
  0xb7, 0xfd, 0x93, 0x26, 0x36, 0x3f, 0xf7, 0xcc, 0x34, 0xa5, 0xe5, 0xf1, 0x71, 0xd8, 0x31, 0x15,
  0x04, 0xc7, 0x23, 0xc3, 0x18, 0x96, 0x05, 0x9a, 0x07, 0x12, 0x80, 0xe2, 0xeb, 0x27, 0xb2, 0x75,
  0x09, 0x83, 0x2c, 0x1a, 0x1b, 0x6e, 0x5a, 0xa0, 0x52, 0x3b, 0xd6, 0xb3, 0x29, 0xe3, 0x2f, 0x84,
  0x53, 0xd1, 0x00, 0xed, 0x20, 0xfc, 0xb1, 0x5b, 0x6a, 0xcb, 0xbe, 0x39, 0x4a, 0x4c, 0x58, 0xcf,
  0xd0, 0xef, 0xaa, 0xfb, 0x43, 0x4d, 0x33, 0x85, 0x45, 0xf9, 0x02, 0x7f, 0x50, 0x3c, 0x9f, 0xa8,
  0x51, 0xa3, 0x40, 0x8f, 0x92, 0x9d, 0x38, 0xf5, 0xbc, 0xb6, 0xda, 0x21, 0x10, 0xff, 0xf3, 0xd2,
  0xcd, 0x0c, 0x13, 0xec, 0x5f, 0x97, 0x44, 0x17, 0xc4, 0xa7, 0x7e, 0x3d, 0x64, 0x5d, 0x19, 0x73,
  0x60, 0x81, 0x4f, 0xdc, 0x22, 0x2a, 0x90, 0x88, 0x46, 0xee, 0xb8, 0x14, 0xde, 0x5e, 0x0b, 0xdb,
  0xe0, 0x32, 0x3a, 0x0a, 0x49, 0x06, 0x24, 0x5c, 0xc2, 0xd3, 0xac, 0x62, 0x91, 0x95, 0xe4, 0x79,
  0xe7, 0xc8, 0x37, 0x6d, 0x8d, 0xd5, 0x4e, 0xa9, 0x6c, 0x56, 0xf4, 0xea, 0x65, 0x7a, 0xae, 0x08,
  0xba, 0x78, 0x25, 0x2e, 0x1c, 0xa6, 0xb4, 0xc6, 0xe8, 0xdd, 0x74, 0x1f, 0x4b, 0xbd, 0x8b, 0x8a,
  0x70, 0x3e, 0xb5, 0x66, 0x48, 0x03, 0xf6, 0x0e, 0x61, 0x35, 0x57, 0xb9, 0x86, 0xc1, 0x1d, 0x9e,
  0xe1, 0xf8, 0x98, 0x11, 0x69, 0xd9, 0x8e, 0x94, 0x9b, 0x1e, 0x87, 0xe9, 0xce, 0x55, 0x28, 0xdf,
  0x8c, 0xa1, 0x89, 0x0d, 0xbf, 0xe6, 0x42, 0x68, 0x41, 0x99, 0x2d, 0x0f, 0xb0, 0x54, 0xbb, 0x16]

/-- The inverse of the substitution box. -/
def inverseSubstitution : Array UInt8 := #[
  0x52, 0x09, 0x6a, 0xd5, 0x30, 0x36, 0xa5, 0x38, 0xbf, 0x40, 0xa3, 0x9e, 0x81, 0xf3, 0xd7, 0xfb,
  0x7c, 0xe3, 0x39, 0x82, 0x9b, 0x2f, 0xff, 0x87, 0x34, 0x8e, 0x43, 0x44, 0xc4, 0xde, 0xe9, 0xcb,
  0x54, 0x7b, 0x94, 0x32, 0xa6, 0xc2, 0x23, 0x3d, 0xee, 0x4c, 0x95, 0x0b, 0x42, 0xfa, 0xc3, 0x4e,
  0x08, 0x2e, 0xa1, 0x66, 0x28, 0xd9, 0x24, 0xb2, 0x76, 0x5b, 0xa2, 0x49, 0x6d, 0x8b, 0xd1, 0x25,
  0x72, 0xf8, 0xf6, 0x64, 0x86, 0x68, 0x98, 0x16, 0xd4, 0xa4, 0x5c, 0xcc, 0x5d, 0x65, 0xb6, 0x92,
  0x6c, 0x70, 0x48, 0x50, 0xfd, 0xed, 0xb9, 0xda, 0x5e, 0x15, 0x46, 0x57, 0xa7, 0x8d, 0x9d, 0x84,
  0x90, 0xd8, 0xab, 0x00, 0x8c, 0xbc, 0xd3, 0x0a, 0xf7, 0xe4, 0x58, 0x05, 0xb8, 0xb3, 0x45, 0x06,
  0xd0, 0x2c, 0x1e, 0x8f, 0xca, 0x3f, 0x0f, 0x02, 0xc1, 0xaf, 0xbd, 0x03, 0x01, 0x13, 0x8a, 0x6b,
  0x3a, 0x91, 0x11, 0x41, 0x4f, 0x67, 0xdc, 0xea, 0x97, 0xf2, 0xcf, 0xce, 0xf0, 0xb4, 0xe6, 0x73,
  0x96, 0xac, 0x74, 0x22, 0xe7, 0xad, 0x35, 0x85, 0xe2, 0xf9, 0x37, 0xe8, 0x1c, 0x75, 0xdf, 0x6e,
  0x47, 0xf1, 0x1a, 0x71, 0x1d, 0x29, 0xc5, 0x89, 0x6f, 0xb7, 0x62, 0x0e, 0xaa, 0x18, 0xbe, 0x1b,
  0xfc, 0x56, 0x3e, 0x4b, 0xc6, 0xd2, 0x79, 0x20, 0x9a, 0xdb, 0xc0, 0xfe, 0x78, 0xcd, 0x5a, 0xf4,
  0x1f, 0xdd, 0xa8, 0x33, 0x88, 0x07, 0xc7, 0x31, 0xb1, 0x12, 0x10, 0x59, 0x27, 0x80, 0xec, 0x5f,
  0x60, 0x51, 0x7f, 0xa9, 0x19, 0xb5, 0x4a, 0x0d, 0x2d, 0xe5, 0x7a, 0x9f, 0x93, 0xc9, 0x9c, 0xef,
  0xa0, 0xe0, 0x3b, 0x4d, 0xae, 0x2a, 0xf5, 0xb0, 0xc8, 0xeb, 0xbb, 0x3c, 0x83, 0x53, 0x99, 0x61,
  0x17, 0x2b, 0x04, 0x7e, 0xba, 0x77, 0xd6, 0x26, 0xe1, 0x69, 0x14, 0x63, 0x55, 0x21, 0x0c, 0x7d]

/-- Substitutes an octet. -/
def sub (b : UInt8) : UInt8 := substitution.getD b.toNat 0

/-- Undoes the substitution of an octet. -/
def unsub (b : UInt8) : UInt8 := inverseSubstitution.getD b.toNat 0

/-- Twice an octet, in the field of 256 elements. -/
def twice (b : UInt8) : UInt8 := if b < 0x80 then b <<< 1 else (b <<< 1) ^^^ 0x1b

/-- Three times an octet. -/
def thrice (b : UInt8) : UInt8 := twice b ^^^ b

/-- Nine times an octet. -/
def times9 (b : UInt8) : UInt8 := twice (twice (twice b)) ^^^ b

/-- Eleven times an octet. -/
def times11 (b : UInt8) : UInt8 := twice (twice (twice b)) ^^^ twice b ^^^ b

/-- Thirteen times an octet. -/
def times13 (b : UInt8) : UInt8 := twice (twice (twice b)) ^^^ twice (twice b) ^^^ b

/-- Fourteen times an octet. -/
def times14 (b : UInt8) : UInt8 := twice (twice (twice b)) ^^^ twice (twice b) ^^^ twice b

/-- Mixes a column. -/
def mix (a : Column) : Column :=
  ⟨twice a.w ^^^ thrice a.x ^^^ a.y ^^^ a.z, a.w ^^^ twice a.x ^^^ thrice a.y ^^^ a.z,
    a.w ^^^ a.x ^^^ twice a.y ^^^ thrice a.z, thrice a.w ^^^ a.x ^^^ a.y ^^^ twice a.z⟩

/-- Undoes the mixing of a column. -/
def unmix (a : Column) : Column :=
  ⟨times14 a.w ^^^ times11 a.x ^^^ times13 a.y ^^^ times9 a.z,
    times9 a.w ^^^ times14 a.x ^^^ times11 a.y ^^^ times13 a.z,
    times13 a.w ^^^ times9 a.x ^^^ times14 a.y ^^^ times11 a.z,
    times11 a.w ^^^ times13 a.x ^^^ times9 a.y ^^^ times14 a.z⟩

/-- Shifts row `i` by `i` places to the left. -/
def shift (s : Block) : Block :=
  ⟨⟨s.a.w, s.b.x, s.c.y, s.d.z⟩, ⟨s.b.w, s.c.x, s.d.y, s.a.z⟩, ⟨s.c.w, s.d.x, s.a.y, s.b.z⟩, ⟨s.d.w, s.a.x, s.b.y, s.c.z⟩⟩

/-- Shifts row `i` by `i` places to the right. -/
def unshift (s : Block) : Block :=
  ⟨⟨s.a.w, s.d.x, s.c.y, s.b.z⟩, ⟨s.b.w, s.a.x, s.d.y, s.c.z⟩, ⟨s.c.w, s.b.x, s.a.y, s.d.z⟩, ⟨s.d.w, s.c.x, s.b.y, s.a.z⟩⟩

/-- Substitutes every octet and shifts the rows. -/
def scramble (s : Block) : Block := shift (s.mapColumns (Column.map sub))

/-- Undoes `scramble`. -/
def unscramble (s : Block) : Block := (unshift s).mapColumns (Column.map unsub)

/-- The round key that follows `k`, with the round constant `rc`. -/
def nextKey (k : Block) (rc : UInt8) : Block :=
  let t : Column := ⟨sub k.d.x ^^^ rc, sub k.d.y, sub k.d.z, sub k.d.w⟩
  let a := k.a.xor t
  let b := k.b.xor a
  let c := k.c.xor b
  ⟨a, b, c, k.d.xor c⟩

/-- The keys of a cipher: one added before the rounds, those of the rounds that mix, and that of the last round. -/
structure Schedule where
  first : Block
  middle : List Block
  last : Block

/-- The round constants of the rounds that mix: the powers of two in the field of 256 elements. -/
def roundConstants : List UInt8 := [0x01, 0x02, 0x04, 0x08, 0x10, 0x20, 0x40, 0x80, 0x1b]

/-- The round keys that follow `k`, one for each round constant. -/
def keysAfter (k : Block) : List UInt8 → List Block
  | [] => []
  | rc :: rcs => let k' := nextKey k rc; k' :: keysAfter k' rcs

/-- The keys of all rounds. -/
def schedule (key : Block) : Schedule :=
  let middle := keysAfter key roundConstants
  ⟨key, middle, nextKey (middle.getLastD key) 0x36⟩

/-- One round that mixes. -/
def round (s k : Block) : Block := ((scramble s).mapColumns mix).xor k

/-- Undoes a round that mixes. -/
def unround (k s : Block) : Block := unscramble ((s.xor k).mapColumns unmix)

/-- Encrypts a block. -/
def encrypt (ks : Schedule) (s : Block) : Block :=
  (scramble (ks.middle.foldl round (s.xor ks.first))).xor ks.last

/-- Decrypts a block. -/
def decrypt (ks : Schedule) (s : Block) : Block :=
  (ks.middle.foldr unround (unscramble (s.xor ks.last))).xor ks.first

end Parley.Aes

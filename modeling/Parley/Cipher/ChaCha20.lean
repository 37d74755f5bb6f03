import Parley.Bytes

/-!
# ChaCha20

The key stream of the ChaCha20 stream cipher with a zero nonce: block `n` of the stream is a permutation of a state made
of four constants, the eight words of the key and the counter `n`, added to that state.
-/

namespace Parley.ChaCha20

/-- Sixteen words. -/
abbrev State := Vector UInt32 16

/-- Rotates a word to the left. -/
def rotateLeft (x : UInt32) (n : UInt32) : UInt32 := (x <<< n) ||| (x >>> (32 - n))

/-- Mixes four words of the state. -/
def quarterRound (s : State) (i j k l : Fin 16) : State :=
  let a := s[i] + s[j]
  let d := rotateLeft (s[l] ^^^ a) 16
  let c := s[k] + d
  let b := rotateLeft (s[j] ^^^ c) 12
  let a := a + b
  let d := rotateLeft (d ^^^ a) 8
  let c := c + d
  let b := rotateLeft (b ^^^ c) 7
  (((s.set i a).set j b).set k c).set l d

/-- Mixes the columns and then the diagonals. -/
def doubleRound (s : State) : State :=
  let s := quarterRound s 0 4 8 12
  let s := quarterRound s 1 5 9 13
  let s := quarterRound s 2 6 10 14
  let s := quarterRound s 3 7 11 15
  let s := quarterRound s 0 5 10 15
  let s := quarterRound s 1 6 11 12
  let s := quarterRound s 2 7 8 13
  quarterRound s 3 4 9 14

/-- The word of four octets, least significant first. -/
def word (bs : Bytes) : UInt32 := bs.foldr (fun b n => n * 256 + b.toUInt32) 0

/-- The octets of a word, least significant first. -/
def octets (w : UInt32) : Bytes := [w.toUInt8, (w >>> 8).toUInt8, (w >>> 16).toUInt8, (w >>> 24).toUInt8]

/-- The state before mixing: constants, key, counter and a zero nonce. -/
def initial (key : Bytes) (counter : UInt64) : State :=
  let k := fun i => word ((key.drop (4 * i)).take 4)
  #v[0x61707865, 0x3320646e, 0x79622d32, 0x6b206574, k 0, k 1, k 2, k 3, k 4, k 5, k 6, k 7,
    counter.toUInt32, (counter >>> 32).toUInt32, 0, 0]

/-- A block of 64 octets of the key stream. -/
def block (key : Bytes) (counter : UInt64) : Bytes :=
  let s := initial key counter
  let mixed := (List.range 10).foldl (fun s _ => doubleRound s) s
  (Vector.zipWith (· + ·) s mixed).toList.flatMap octets

end Parley.ChaCha20

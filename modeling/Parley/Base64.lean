import Parley.Bytes

/-!
# Base64

The standard alphabet with required padding: three octets become four symbols, and `=` fills the last quad up.
`Base64.encode` writes, `Base64.decode` reads strictly. A text is refused at its first offending place, and every
refusal names the place:

* a byte that is no symbol, or a `=` out of place, is an `invalid symbol`;
* a last quad with fewer than two symbols has an `invalid length`;
* a last quad that is not filled up has `invalid padding`;
* non-zero bits that the last symbol would discard make it an `invalid last symbol`.
-/

namespace Parley.Base64

/-- Why a text is no Base64. Offsets count bytes from the start of the text. -/
inductive Fault where
  /-- A byte outside the alphabet, or a pad where none may stand. -/
  | symbol (byte : UInt8) (offset : Nat)
  /-- The last quad has fewer than two symbols. -/
  | length (size : Nat)
  /-- The last symbol has non-zero bits that belong to no octet. -/
  | lastSymbol (byte : UInt8) (offset : Nat)
  /-- The last quad is not filled up to four. -/
  | padding
  deriving DecidableEq, Repr

/-- The wording of a refusal. -/
def Fault.message : Fault → String
  | .symbol b o => s!"Invalid symbol {b.toNat}, offset {o}."
  | .length n => s!"Invalid input length: {n}"
  | .lastSymbol b o => s!"Invalid last symbol {b.toNat}, offset {o}."
  | .padding => "Invalid padding"

/-- The symbol of a six-bit value. -/
def symbol (n : Nat) : Char :=
  if n < 26 then Char.ofNat (65 + n)
  else if n < 52 then Char.ofNat (97 + (n - 26))
  else if n < 62 then Char.ofNat (48 + (n - 52))
  else if n = 62 then '+'
  else '/'

/-- The six-bit value of a symbol. -/
def value? (b : UInt8) : Option Nat :=
  let n := b.toNat
  if 65 ≤ n ∧ n ≤ 90 then some (n - 65)
  else if 97 ≤ n ∧ n ≤ 122 then some (n - 97 + 26)
  else if 48 ≤ n ∧ n ≤ 57 then some (n - 48 + 52)
  else if n = 43 then some 62
  else if n = 47 then some 63
  else none

/-- The pad, `=`. -/
def pad : UInt8 := 61

/-- The Base64 text of a byte string. -/
def encode : Bytes → List Char
  | [] => []
  | [a] => [symbol (a.toNat / 4), symbol (a.toNat % 4 * 16), '=', '=']
  | [a, b] =>
    [symbol (a.toNat / 4), symbol (a.toNat % 4 * 16 + b.toNat / 16), symbol (b.toNat % 16 * 4), '=']
  | a :: b :: c :: rest =>
    symbol (a.toNat / 4) :: symbol (a.toNat % 4 * 16 + b.toNat / 16) ::
      symbol (b.toNat % 16 * 4 + c.toNat / 64) :: symbol (c.toNat % 64) :: encode rest

/-- The three octets that four six-bit values hold. -/
def triple (w x y z : Nat) : Bytes :=
  [UInt8.ofNat (w * 4 + x / 16), UInt8.ofNat (x % 16 * 16 + y / 4), UInt8.ofNat (y % 4 * 64 + z)]

/-- The value of the symbol at an offset. -/
def digit (offset : Nat) (b : UInt8) : Except Fault Nat :=
  match value? b with
  | some n => .ok n
  | none => .error (.symbol b offset)

/-- Reads the last quad from left to right: the values of its symbols, the last symbol and the number of pads.
`pos` is the place in the quad and `firstPad` the place of the first pad, if one has been met. -/
def scanLast (start : Nat) : Nat → Option Nat → Bytes → Except Fault (List (UInt8 × Nat) × Nat)
  | _, _, [] => .ok ([], 0)
  | pos, firstPad, b :: rest =>
    if b = pad then
      if pos < 2 then .error (.symbol b (start + pos))
      else do
        let (values, pads) ← scanLast start (pos + 1) (some (firstPad.getD pos)) rest
        return (values, pads + 1)
    else
      match firstPad with
      | some p => .error (.symbol pad (start + p))
      | none => do
        let n ← digit (start + pos) b
        let (values, pads) ← scanLast start (pos + 1) none rest
        return ((b, n) :: values, pads)

/-- Reads the last quad, which starts at `start`. -/
def decodeLast (start : Nat) (quad : Bytes) : Except Fault Bytes :=
  match quad with
  | [] => .ok []
  | quad => do
    let (symbols, pads) ← scanLast start 0 none quad
    if symbols.length < 2 then .error (.length (start + symbols.length))
    else if (symbols.length + pads) % 4 ≠ 0 then .error .padding
    else
      match symbols with
      | [(_, w), (b, x)] =>
        if x % 16 ≠ 0 then .error (.lastSymbol b (start + 1)) else .ok ((triple w x 0 0).take 1)
      | [(_, w), (_, x), (b, y)] =>
        if y % 4 ≠ 0 then .error (.lastSymbol b (start + 2)) else .ok ((triple w x y 0).take 2)
      | [(_, w), (_, x), (_, y), (_, z)] => .ok (triple w x y z)
      | _ => .ok []

/-- Reads quads from the offset `start` on. Only the last one may be padded. -/
def decodeFrom (start : Nat) : Bytes → Except Fault Bytes
  | a :: b :: c :: d :: e :: rest => do
    let w ← digit start a
    let x ← digit (start + 1) b
    let y ← digit (start + 2) c
    let z ← digit (start + 3) d
    let more ← decodeFrom (start + 4) (e :: rest)
    return triple w x y z ++ more
  | quad => decodeLast start quad

/-- A byte that is left over after whole quads and could be part of none. -/
def strayLast? (text : Bytes) : Option UInt8 :=
  if text.length % 4 = 1 then text.getLast?.filter (fun b => b ≠ pad && (value? b).isNone) else none

/-- The byte string that a Base64 text stands for. A stray last byte is reported before all else, the rest from left
to right. -/
def decode (text : Bytes) : Except Fault Bytes :=
  match strayLast? text with
  | some b => .error (.symbol b (text.length - 1))
  | none => decodeFrom 0 text

end Parley.Base64

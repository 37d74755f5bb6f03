import Parley.Bytes

/-!
# UTF-8

`Utf8.encode` writes characters as octets, `Utf8.decode` reads octets as characters. A byte string that is no UTF-8 is
refused at the first place where it goes wrong, with the length of the longest part there that could begin a character:

* `Fault.invalid`: the next `size` octets begin no character, whatever follows;
* `Fault.incomplete`: the octets end inside a character.
-/

namespace Parley.Utf8

/-- Why a byte string is no UTF-8. -/
inductive Fault where
  /-- The `size` octets from `offset` on are no character. -/
  | invalid (size offset : Nat)
  /-- The octets end inside the character that begins at `offset`. -/
  | incomplete (offset : Nat)
  deriving DecidableEq, Repr

/-- The wording of a refusal. -/
def Fault.message : Fault → String
  | .invalid n o => s!"invalid utf-8 sequence of {n} bytes from index {o}"
  | .incomplete o => s!"incomplete utf-8 byte sequence from index {o}"

/-- The octets of a text. -/
def encode (cs : List Char) : Bytes := cs.flatMap String.utf8EncodeChar

/-- A continuation octet, `10xxxxxx`. -/
def isTail (b : UInt8) : Bool := 0x80 ≤ b && b ≤ 0xBF

/-- The octets that may follow the first octet of a three-octet character: no overlong form and no surrogate. -/
def isSecondOfThree (first second : UInt8) : Bool :=
  (first == 0xE0 && 0xA0 ≤ second && second ≤ 0xBF) || (first == 0xED && 0x80 ≤ second && second ≤ 0x9F) ||
    (first != 0xE0 && first != 0xED && isTail second)

/-- The octets that may follow the first octet of a four-octet character: no overlong form and nothing above the last
code point. -/
def isSecondOfFour (first second : UInt8) : Bool :=
  (first == 0xF0 && 0x90 ≤ second && second ≤ 0xBF) || (first == 0xF4 && 0x80 ≤ second && second ≤ 0x8F) ||
    (first != 0xF0 && first != 0xF4 && isTail second)

/-- What stands at the head of a non-empty byte string: a character and its size, or the fault, with offsets counted
from there. -/
def decodeHead (b : UInt8) (rest : Bytes) : Except Fault (Char × Nat) :=
  if b < 0x80 then .ok (Char.ofNat b.toNat, 1)
  else if 0xC2 ≤ b && b ≤ 0xDF then
    match rest with
    | [] => .error (.incomplete 0)
    | c :: _ =>
      if isTail c then .ok (Char.ofNat ((b.toNat - 0xC0) * 64 + (c.toNat - 0x80)), 2) else .error (.invalid 1 0)
  else if 0xE0 ≤ b && b ≤ 0xEF then
    match rest with
    | [] => .error (.incomplete 0)
    | c :: rest =>
      if isSecondOfThree b c then
        match rest with
        | [] => .error (.incomplete 0)
        | d :: _ =>
          if isTail d then
            .ok (Char.ofNat ((b.toNat - 0xE0) * 4096 + (c.toNat - 0x80) * 64 + (d.toNat - 0x80)), 3)
          else .error (.invalid 2 0)
      else .error (.invalid 1 0)
  else if 0xF0 ≤ b && b ≤ 0xF4 then
    match rest with
    | [] => .error (.incomplete 0)
    | c :: rest =>
      if isSecondOfFour b c then
        match rest with
        | [] => .error (.incomplete 0)
        | d :: rest =>
          if isTail d then
            match rest with
            | [] => .error (.incomplete 0)
            | e :: _ =>
              if isTail e then
                .ok (Char.ofNat ((b.toNat - 0xF0) * 262144 + (c.toNat - 0x80) * 4096 + (d.toNat - 0x80) * 64 +
                  (e.toNat - 0x80)), 4)
              else .error (.invalid 3 0)
          else .error (.invalid 2 0)
      else .error (.invalid 1 0)
  else .error (.invalid 1 0)

/-- Moves a fault to where the byte string it was found in begins. -/
def Fault.shift (d : Nat) : Fault → Fault
  | .invalid n o => .invalid n (d + o)
  | .incomplete o => .incomplete (d + o)

/-- Reads characters from the offset `pos` on; `done` holds those read so far, last one first. -/
def decodeFrom (pos : Nat) (done : List Char) : Bytes → Except Fault (List Char)
  | [] => .ok done.reverse
  | b :: rest =>
    match decodeHead b rest with
    | .error f => .error (f.shift pos)
    | .ok (c, n) => decodeFrom (pos + n) (c :: done) (rest.drop (n - 1))
  termination_by bs => bs.length
  decreasing_by
    simp only [List.length_drop, List.length_cons]
    omega

/-- The text that a byte string encodes. -/
def decode (bs : Bytes) : Except Fault (List Char) := decodeFrom 0 [] bs

end Parley.Utf8

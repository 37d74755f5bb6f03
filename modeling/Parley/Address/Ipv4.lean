import Parley.Text.Decimal

/-!
# IPv4 addresses and endpoints

An IPv4 address is written as four decimal octets without leading zeros, an endpoint as address, colon and port.
`Ipv4.read` and `Endpoint.read` read an address at the head of a text and return the rest of it.
-/

namespace Parley

/-- An IPv4 address. -/
structure Ipv4 where
  a : UInt8
  b : UInt8
  c : UInt8
  d : UInt8
  deriving DecidableEq, Repr, Inhabited

namespace Ipv4

/-- `0.0.0.0`, the address of no host in particular. -/
def unspecified : Ipv4 := ⟨0, 0, 0, 0⟩

/-- `127.0.0.1`, the host itself. -/
def loopback : Ipv4 := ⟨127, 0, 0, 1⟩

/-- The dotted form. -/
def chars (ip : Ipv4) : List Char :=
  Decimal.digits ip.a.toNat ++ '.' :: Decimal.digits ip.b.toNat ++ '.' :: Decimal.digits ip.c.toNat ++
    '.' :: Decimal.digits ip.d.toNat

/-- One decimal octet of at most three digits, without a leading zero, and the rest of the text. -/
def readOctet (cs : List Char) : Option (UInt8 × List Char) :=
  let ds := cs.takeWhile Char.isDigit
  if ds.length ≤ 3 ∧ (ds.length ≤ 1 ∨ ds.head? ≠ some '0') then
    (Decimal.bounded? 256 ds).map fun n => (UInt8.ofNat n, cs.dropWhile Char.isDigit)
  else none

/-- The text after the character `c`, if it begins with it. -/
def afterChar (c : Char) : List Char → Option (List Char)
  | d :: cs => if d = c then some cs else none
  | [] => none

/-- An address at the head of a text, and the rest of the text. -/
def read (cs : List Char) : Option (Ipv4 × List Char) := do
  let (a, cs) ← readOctet cs
  let cs ← afterChar '.' cs
  let (b, cs) ← readOctet cs
  let cs ← afterChar '.' cs
  let (c, cs) ← readOctet cs
  let cs ← afterChar '.' cs
  let (d, cs) ← readOctet cs
  return (⟨a, b, c, d⟩, cs)

/-- The address that a whole text stands for. -/
def ofChars? (cs : List Char) : Option Ipv4 :=
  match read cs with
  | some (ip, []) => some ip
  | _ => none

end Ipv4

/-- An IPv4 address and a port: where a member listens. -/
structure Endpoint where
  ip : Ipv4
  port : UInt16
  deriving DecidableEq, Repr, Inhabited

namespace Endpoint

/-- Address, colon, port. -/
def chars (e : Endpoint) : List Char := e.ip.chars ++ ':' :: Decimal.digits e.port.toNat

/-- Address, colon, port. -/
def render (e : Endpoint) : String := String.ofList e.chars

instance : ToString Endpoint := ⟨render⟩

/-- A port at the end of a text. Leading zeros are allowed, a sign is not. -/
def port? (cs : List Char) : Option UInt16 := (Decimal.bounded? 65536 cs).map UInt16.ofNat

/-- The endpoint that a whole text stands for. -/
def ofChars? (cs : List Char) : Option Endpoint := do
  let (ip, cs) ← Ipv4.read cs
  let cs ← Ipv4.afterChar ':' cs
  let port ← port? cs
  return ⟨ip, port⟩

end Endpoint
end Parley

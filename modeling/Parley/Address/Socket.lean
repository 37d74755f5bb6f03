import Parley.Address.Ipv6

/-!
# Socket addresses

Where a server listens: an IPv4 endpoint, or an IPv6 address with port and scope. `SocketAddress.headerEndpoint` is what
a frame header can say of it.
-/

namespace Parley

/-- An address that can be listened on or dialled. -/
inductive SocketAddress where
  /-- An IPv4 endpoint. -/
  | v4 (endpoint : Endpoint)
  /-- An IPv6 address, its port and its scope; scope 0 is the default one. -/
  | v6 (ip : Ipv6) (port : UInt16) (scope : UInt32)
  deriving DecidableEq, Repr

namespace SocketAddress

/-- The written form: `1.2.3.4:5`, `[::1]:5` or `[fe80::1%2]:5`. -/
def chars : SocketAddress → List Char
  | .v4 e => e.chars
  | .v6 ip port scope =>
    '[' :: ip.chars ++ (if scope = 0 then [] else '%' :: Decimal.digits scope.toNat) ++
      [']', ':'] ++ Decimal.digits port.toNat

/-- The written form. -/
def render (a : SocketAddress) : String := String.ofList a.chars

instance : ToString SocketAddress := ⟨render⟩

/-- A scope in front of the closing bracket, and the rest of the text. -/
def readScope (cs : List Char) : Option (UInt32 × List Char) :=
  match cs with
  | '%' :: cs =>
    (Decimal.bounded? UInt32.size (cs.takeWhile Char.isDigit)).map fun n =>
      (UInt32.ofNat n, cs.dropWhile Char.isDigit)
  | cs => some (0, cs)

/-- An IPv6 socket address that takes the whole text. -/
def v6OfChars? (cs : List Char) : Option SocketAddress := do
  let cs ← Ipv4.afterChar '[' cs
  let (ip, cs) ← Ipv6.read cs
  let (scope, cs) ← readScope cs
  let cs ← Ipv4.afterChar ']' cs
  let cs ← Ipv4.afterChar ':' cs
  let port ← Endpoint.port? cs
  return .v6 ip port scope

/-- The socket address that a whole text stands for. -/
def ofChars? (cs : List Char) : Option SocketAddress :=
  match Endpoint.ofChars? cs with
  | some e => some (.v4 e)
  | none => v6OfChars? cs

/-- The endpoint that stands in the frame headers of a server at this address. -/
def headerEndpoint : SocketAddress → Endpoint
  | .v4 e => e
  | .v6 _ port _ => ⟨Ipv4.unspecified, port⟩

end SocketAddress
end Parley

import Parley.Address.Ipv4
import Parley.Message.Fault
import Parley.Text.Blank

/-!
# Identities

A member is known by a display name and by the endpoint it listens on. The endpoint alone decides who a member is
(`Identity.same`): a member that renames itself stays the same one. On the wire an identity is three fields, so a name
can travel if it is not empty and holds no blank (`Identity.isValidName`).
-/

namespace Parley

/-- A member: its display name and where it listens. -/
structure Identity where
  name : String
  addr : Endpoint
  deriving DecidableEq, Repr, Inhabited

namespace Identity

/-- Two identities are of the same member if they have the same endpoint. -/
def same (u v : Identity) : Bool := u.addr = v.addr

/-- A name that can travel on the wire. -/
def isValidName (name : String) : Bool := !name.toList.isEmpty && !name.toList.any Text.isBlank

/-- Name, address and port with single spaces between them. -/
def wireChars (u : Identity) : List Char :=
  u.name.toList ++ ' ' :: u.addr.ip.chars ++ ' ' :: Decimal.digits u.addr.port.toNat

/-- Name, address and port with single spaces between them. -/
def wire (u : Identity) : String := String.ofList u.wireChars

/-- How an identity is shown to people. -/
def display (u : Identity) : String := s!"{u.name}@{u.addr.render}"

/-- Reads the three fields of an identity in a message of the given kind. A plus sign in front of the port is allowed. -/
def ofWire (kind : Kind) (text : List Char) : Except Message.Fault Identity :=
  match Text.words text with
  | [name, ip, port] =>
    match Ipv4.ofChars? ip with
    | none => .error (.malformed kind (.address (String.ofList ip)))
    | some address =>
      match Decimal.signed? 65536 port with
      | none => .error (.malformed kind (.port (String.ofList port)))
      | some p => .ok ⟨String.ofList name, ⟨address, UInt16.ofNat p⟩⟩
  | fields => .error (.malformed kind (.fieldCount fields.length))

end Identity
end Parley

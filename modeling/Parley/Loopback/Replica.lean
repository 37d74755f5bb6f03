import Parley.Directory.Conduct
import Parley.Loopback.Basic

/-!
# A replica in memory

A replica with numbered connections to it. A connection is opened when it is first written on.
-/

namespace Parley.Loopback

open Directory

/-- A connection to a server. -/
structure ServerLine where
  /-- The server's end. -/
  intake : Intake
  /-- Octets that have come back and have not been read. -/
  arrived : Bytes
  /-- Whether the end of the stream has been read. -/
  isOver : Bool
  deriving DecidableEq, Repr

/-- A connection that has just been opened. -/
def ServerLine.fresh : ServerLine := ⟨.fresh, [], false⟩

/-- Waits for replies. -/
def ServerLine.read (l : ServerLine) (count : Nat) : Except Halt (ServerLine × List Arrival) := do
  let (found, rest) ← await (fun f => (Envelope.ofFrame f).toOption) l.intake.isOpen count l.arrived
  return ({ l with arrived := rest, isOver := found.contains .closed }, found)

/-- A replica and the connections to it. -/
structure ReplicaHost where
  network : Network
  ledger : Ledger
  lines : SortedMap Nat ServerLine
  deriving DecidableEq, Repr

namespace ReplicaHost

/-- A replica without connections. -/
def start (network : Network) (cache : Nat) : ReplicaHost := ⟨network, .new cache, .empty⟩

/-- The connection with a number, which is opened if it is new. -/
def line (h : ReplicaHost) (n : Nat) : Except Halt ServerLine :=
  match h.lines.get? n with
  | some l => .ok l
  | none => if h.network.connects true then .ok .fresh else .error .noConnection

/-- Writes octets on a connection, and closes the writing end of it if `ends`. -/
def write (h : ReplicaHost) (n : Nat) (octets : Bytes) (ends : Bool) : Except Halt ReplicaHost := do
  let l ← h.line n
  let (ledger, intake, replies) := Replica.serve Conduct.sender h.ledger l.intake octets
  let intake := { intake with isOpen := intake.isOpen && !ends }
  return { h with ledger, lines := h.lines.insert n { l with intake, arrived := l.arrived ++ replies } }

/-- Waits for replies on a connection. -/
def read (h : ReplicaHost) (n : Nat) (count : Nat) : Except Halt (ReplicaHost × List Arrival) := do
  let (l, found) ← (← h.line n).read count
  return ({ h with lines := h.lines.insert n l }, found)

end ReplicaHost
end Parley.Loopback

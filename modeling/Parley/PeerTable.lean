import Parley.Identity
import Parley.Link.Basic
import Parley.SortedMap

/-!
# Which connection leads to whom

At most one connection leads to each member: a second one displaces the first, and whoever registers it is told which one
to close.
-/

namespace Parley

/-- The members at the other ends of connections. -/
structure PeerTable where
  byConnection : SortedMap ConnectionId Identity
  deriving DecidableEq, Repr

namespace PeerTable

/-- No connections. -/
def empty : PeerTable := ⟨.empty⟩

/-- Another connection that leads to the same member as `u`. -/
def displaced? (t : PeerTable) (id : ConnectionId) (u : Identity) : Option ConnectionId :=
  (t.byConnection.entries.find? fun e => e.1 ≠ id && e.2.same u).map Prod.fst

/-- Registers who is at the other end of a connection. The connection that this displaces is dropped. -/
def insert (t : PeerTable) (id : ConnectionId) (u : Identity) : PeerTable :=
  match t.displaced? id u with
  | some old => ⟨(t.byConnection.erase old).insert id u⟩
  | none => ⟨t.byConnection.insert id u⟩

/-- Forgets a connection. -/
def erase (t : PeerTable) (id : ConnectionId) : PeerTable := ⟨t.byConnection.erase id⟩

/-- Who is at the other end of a connection. -/
def get? (t : PeerTable) (id : ConnectionId) : Option Identity := t.byConnection.get? id

/-- The connection that leads to an endpoint. -/
def find? (t : PeerTable) (addr : Endpoint) : Option ConnectionId :=
  (t.byConnection.entries.find? fun e => e.2.addr = addr).map Prod.fst

/-- The connections, in order. -/
def ids (t : PeerTable) : List ConnectionId := t.byConnection.keys

/-- The members, in the order of their connections. -/
def users (t : PeerTable) : List Identity := t.byConnection.values

/-- The number of connections. -/
def size (t : PeerTable) : Nat := t.byConnection.size

end PeerTable
end Parley

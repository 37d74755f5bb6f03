import Parley.Identity

/-!
# The ranking of a room

The members of a room in the order in which they joined. The first one is the next to be host. The local member stands in
the ranking exactly once: it cannot be removed, and a ranking taken over from the host gets it appended if it is missing.
-/

namespace Parley

/-- Members in the order in which they joined, and where the local member listens. -/
structure Ranking where
  users : List Identity
  self : Endpoint
  deriving DecidableEq, Repr

namespace Ranking

/-- The ranking of the local member alone. -/
def alone (me : Identity) : Ranking := ⟨[me], me.addr⟩

/-- The first in rank. A ranking is never empty, since the local member cannot be removed. -/
def head (r : Ranking) : Identity := r.users.headD ⟨"", r.self⟩

/-- Whether the first in rank listens at the given endpoint. -/
def isHead (r : Ranking) (addr : Endpoint) : Bool := r.head.addr = addr

/-- Whether a member is ranked. -/
def contains (r : Ranking) (addr : Endpoint) : Bool := r.users.any fun u => u.addr = addr

/-- The member at an endpoint. -/
def find? (r : Ranking) (addr : Endpoint) : Option Identity := r.users.find? fun u => u.addr = addr

/-- Appends a member that is not ranked yet. -/
def push (r : Ranking) (u : Identity) : Ranking := if r.contains u.addr then r else { r with users := r.users ++ [u] }

/-- Removes a member other than the local one. -/
def remove (r : Ranking) (addr : Endpoint) : Ranking :=
  if addr = r.self then r else { r with users := r.users.eraseP fun u => u.addr = addr }

/-- The member that `remove` removes. -/
def removed? (r : Ranking) (addr : Endpoint) : Option Identity := if addr = r.self then none else r.find? addr

/-- Keeps the first of several identities of one member. -/
def distinct (us : List Identity) : List Identity :=
  us.foldl (fun seen u => if seen.any (Identity.same u) then seen else seen ++ [u]) []

/-- Takes over another list, each member once, with the local member appended if the list lacks it. -/
def replace (_ : Ranking) (users : List Identity) (me : Identity) : Ranking :=
  ⟨distinct (users ++ [me]), me.addr⟩

/-- Removes all identities of a member but the first. -/
def keepFirst (addr : Endpoint) : List Identity → List Identity
  | [] => []
  | u :: us => if u.addr = addr then u :: us.filter (fun v => v.addr ≠ addr) else u :: keepFirst addr us

/-- Puts an identity in the place of the first one at an endpoint. -/
def replaceFirst (addr : Endpoint) (me : Identity) : List Identity → List Identity
  | [] => []
  | u :: us => if u.addr = addr then me :: us else u :: replaceFirst addr me us

/-- Replaces the local member by an identity of it elsewhere, in the same place. -/
def setSelf (r : Ranking) (me : Identity) : Ranking :=
  let users := if r.contains r.self then replaceFirst r.self me r.users else r.users ++ [me]
  ⟨keepFirst me.addr users, me.addr⟩

/-- Drops everyone but the local member. -/
def reset (r : Ranking) : Ranking := { r with users := r.users.filter fun u => u.addr = r.self }

end Ranking
end Parley

/-!
# Networks

Sockets can be bound on every host. Whether a dial to a socket completes depends on the network: on an isolated host none
does.
-/

namespace Parley

/-- What a host is attached to. -/
inductive Network where
  /-- A dial completes if somebody listens. -/
  | attached
  /-- No dial completes. -/
  | isolated
  deriving DecidableEq, Repr

/-- Whether a dial completes. -/
def Network.connects : Network → Bool → Bool
  | .attached, listening => listening
  | .isolated, _ => false

end Parley

/-!
# Elections

When the host is gone, every member votes for the first in rank. The first in rank becomes host once at least half of the
members that it knows have voted for it.
-/

namespace Parley

/-- How far an election has come, as one member sees it. -/
structure Election where
  active : Bool
  votes : Nat
  deriving DecidableEq, Repr

namespace Election

/-- No election. -/
def idle : Election := ⟨false, 0⟩

/-- Starts an election with no votes. One that is running goes on. -/
def start (e : Election) : Election := if e.active then e else ⟨true, 0⟩

/-- At least half of the known members have voted, and at least one. -/
def isWon (votes peers : Nat) : Bool := votes > 0 && votes * 2 ≥ peers

/-- Counts a vote. -/
def countVote (e : Election) : Election := { e with votes := e.votes + 1 }

end Election
end Parley

/-!
# The clock of a room

A room shares one counter. A line of chat carries the counter of its sender, and a member takes a line up once its own
counter has reached the stamp. A member that has just joined does not know the counter yet: the first line that it sees
sets it. Counters stop at the largest 64-bit number.
-/

namespace Parley

/-- The counter as one member knows it. -/
inductive Clock where
  /-- The first line of chat has yet to come. -/
  | unsynced
  /-- The counter stands at `time`. -/
  | synced (time : UInt64)
  deriving DecidableEq, Repr

/-- What becomes of a line of chat that arrives. -/
inductive Arrival where
  /-- It is taken up now. -/
  | deliver
  /-- Its stamp is ahead of the counter: it waits. -/
  | defer
  deriving DecidableEq, Repr

namespace Clock

/-- The largest stamp. -/
def maxTime : UInt64 := 0xFFFFFFFFFFFFFFFF

/-- The next stamp; the largest one is followed by itself. -/
def next (t : UInt64) : UInt64 := if t = maxTime then maxTime else t + 1

/-- The clock of a new room. -/
def start : Clock := synced 0

/-- The counter, if it is known. -/
def time? : Clock → Option UInt64
  | unsynced => none
  | synced t => some t

/-- Whether the counter is known. -/
def isSynced (c : Clock) : Bool := c.time?.isSome

/-- Counts one line of chat. A counter that is not known stays unknown. -/
def advance : Clock → Clock
  | unsynced => unsynced
  | synced t => synced (next t)

/-- The stamp of a line that is sent now. While the counter is not known, the stamp is zero. -/
def stamp : Clock → UInt64 × Clock
  | unsynced => (0, unsynced)
  | synced t => (t, synced (next t))

/-- Meets a line of chat with the given stamp. An unknown counter is first set to the stamp. -/
def observe (c : Clock) (stamp : UInt64) : Arrival × Clock :=
  let now := c.time?.getD stamp
  if stamp > now then (.defer, synced now) else (.deliver, synced (next now))

/-- How a clock is shown. -/
def shown : Clock → String
  | unsynced => "unsynced"
  | synced t => toString t.toNat

/-- The next stamp is one more, up to the largest. -/
theorem toNat_next (t : UInt64) : (next t).toNat = min (t.toNat + 1) (UInt64.size - 1) := by
  unfold next
  have hm : maxTime.toNat = UInt64.size - 1 := rfl
  split
  · rename_i h
    rw [h, hm]
    omega
  · rename_i h
    have hne : t.toNat ≠ UInt64.size - 1 := fun h' => h (UInt64.toNat_inj.1 (h'.trans hm.symm))
    have hlt := t.toNat_lt_size
    have hlt' : t.toNat + 1 < UInt64.size := by
      simp only [UInt64.size] at hne hlt ⊢
      omega
    rw [UInt64.toNat_add]
    change (t.toNat + 1) % UInt64.size = _
    rw [Nat.mod_eq_of_lt hlt', Nat.min_eq_left (Nat.le_sub_one_of_lt hlt')]

end Clock
end Parley

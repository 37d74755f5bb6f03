import Parley.Clock

/-!
# Lines that wait

Lines of chat whose stamps are ahead of the clock wait in order of their stamps, lines of equal stamps in order of
arrival. `Pending.drain` takes off the lines that the clock has reached; every line taken off moves the clock on, and so
may let the next one through.
-/

namespace Parley

/-- What waits, with its stamps, in the order in which it will be taken off. -/
structure Pending (α : Type) where
  entries : List (UInt64 × α)
  deriving DecidableEq, Repr

namespace Pending

variable {α : Type}

/-- Nothing waits. -/
def empty : Pending α := ⟨[]⟩

/-- Puts an entry behind those of the same or a smaller stamp. -/
def insertEntry (stamp : UInt64) (a : α) : List (UInt64 × α) → List (UInt64 × α)
  | [] => [(stamp, a)]
  | e :: es => if stamp < e.1 then (stamp, a) :: e :: es else e :: insertEntry stamp a es

/-- Lets an item wait for a stamp. -/
def push (q : Pending α) (stamp : UInt64) (a : α) : Pending α := ⟨insertEntry stamp a q.entries⟩

/-- The smallest stamp that is waited for. -/
def nextStamp? (q : Pending α) : Option UInt64 := q.entries.head?.map Prod.fst

/-- How many items wait. -/
def size (q : Pending α) : Nat := q.entries.length

/-- Splits entries into those that a counter lets through, which moves it on, and the rest. -/
def drainEntries (now : UInt64) : List (UInt64 × α) → List (UInt64 × α) × List (UInt64 × α) × UInt64
  | [] => ([], [], now)
  | e :: es =>
    if e.1 ≤ now then
      let (ready, rest, time) := drainEntries (Clock.next now) es
      (e :: ready, rest, time)
    else ([], e :: es, now)

/-- Takes off what the clock has reached, and moves the clock on. Nothing is taken off while the clock is not synced. -/
def drain (q : Pending α) (c : Clock) : List (UInt64 × α) × Pending α × Clock :=
  match c with
  | .unsynced => ([], q, .unsynced)
  | .synced now =>
    let (ready, rest, time) := drainEntries now q.entries
    (ready, ⟨rest⟩, .synced time)

/-- How a queue is shown: by its size and its smallest stamp. -/
def shown (q : Pending α) : String :=
  let next := match q.nextStamp? with
    | none => "None"
    | some t => s!"Some({t.toNat})"
  "PendingDeliveryQueue \x7b len: " ++ toString q.size ++ ", next: " ++ next ++ " \x7d"

end Pending
end Parley

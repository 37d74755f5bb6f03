import Parley.Directory.Fault
import Parley.Message.Basic
import Parley.SortedMap

/-!
# The ledger of a replica

A replica keeps the sealed adverts of rooms under their tokens, and changes them in two phases: a request is queued under
an operation id (`Ledger.queue`) and then carried out (`Ledger.process`). The results of the last operations are kept, so
that both phases can be repeated without being carried out twice. A new room gets its token from the operation id, and so
the same one at every replica.
-/

namespace Parley.Directory

/-- What a replica knows. -/
structure Ledger where
  /-- Adverts by token. -/
  rooms : SortedMap String Bytes
  /-- Requests that are queued. -/
  pending : SortedMap OperationId Message
  /-- Results of operations. -/
  completed : SortedMap OperationId Message
  /-- The operations with a result, the oldest first. -/
  order : List OperationId
  /-- How many results are kept. -/
  limit : Nat
  deriving DecidableEq, Repr

namespace Ledger

/-- A ledger without rooms that keeps the given number of results, at least one. -/
def new (limit : Nat) : Ledger := ⟨.empty, .empty, .empty, [], max limit 1⟩

/-- Queues a request, unless its operation has a result. -/
def queue (l : Ledger) (id : OperationId) (request : Message) : Ledger :=
  if l.completed.contains id then l else { l with pending := l.pending.insert id request }

/-- Carries a request out. -/
def apply (l : Ledger) (id : OperationId) (request : Message) : Except Fault (Ledger × Message) :=
  match request with
  | .hostRoom payload =>
    let token := String.ofList id.simple
    .ok ({ l with rooms := l.rooms.insert token payload }, .ack token)
  | .hostUpdated token payload => .ok ({ l with rooms := l.rooms.insert token payload }, .ack token)
  | .requestRoomList => .ok (l, .roomList l.rooms.values)
  | other => .error (.unsupported other.label)

/-- Keeps a result, instead of the oldest one if there are as many as are kept. -/
def remember (l : Ledger) (id : OperationId) (result : Message) : Ledger :=
  let l :=
    match l.order with
    | oldest :: rest =>
      if l.order.length = l.limit then { l with order := rest, completed := l.completed.erase oldest } else l
    | [] => l
  { l with order := l.order ++ [id], completed := l.completed.insert id result }

/-- Carries a queued operation out, or repeats the result of one that was carried out. A request that cannot be carried
out is no longer queued. -/
def process (l : Ledger) (id : OperationId) : Ledger × Except Fault Message :=
  match l.completed.get? id with
  | some result => (l, .ok result)
  | none =>
    match l.pending.get? id with
    | none => (l, .error (.unknownOperation id))
    | some request =>
      let l := { l with pending := l.pending.erase id }
      match l.apply id request with
      | .error e => (l, .error e)
      | .ok (l, result) => (l.remember id result, .ok result)

/-- The advert under a token. -/
def advert? (l : Ledger) (token : String) : Option Bytes := l.rooms.get? token

end Ledger
end Parley.Directory

import Parley.Directory.Ledger

/-!
# Carrying operations out

A member's request that is queued and carried out has a result (`Ledger.exists_process_queue`), which is an acknowledgement or
a list of adverts: the one that was kept if the operation has been carried out before, and else what the request asks for. Of
the results that a ledger keeps only the last one can be new (`Ledger.get?_completed_remember`).
-/

namespace Parley.Directory

/-- A request of a member that the relay repeats at its replicas. -/
def IsRequest : Message → Bool
  | .hostRoom _ | .hostUpdated _ _ | .requestRoomList => true
  | _ => false

/-- What a request can come to. -/
def IsResult : Message → Bool
  | .ack _ | .roomList _ => true
  | _ => false

namespace Ledger

variable {l : Ledger} {id j : OperationId} {result m : Message}

theorem rooms_remember (l : Ledger) (id : OperationId) (result : Message) : (l.remember id result).rooms = l.rooms := by
  unfold remember
  dsimp only
  split
  · split <;> rfl
  · rfl

/-- A result that is kept is the new one, or was kept before. -/
theorem get?_completed_remember (h : (l.remember id result).completed.get? j = some m) :
    j = id ∧ m = result ∨ l.completed.get? j = some m := by
  by_cases hj : j = id
  · subst hj
    have hnew : (l.remember j result).completed.get? j = some result := SortedMap.get?_insert_self ..
    exact .inl ⟨rfl, Option.some.inj (h.symm.trans hnew)⟩
  · refine .inr ?_
    have herase (oldest : OperationId) (hm : (l.completed.erase oldest).get? j = some m) : l.completed.get? j = some m := by
      by_cases hold : j = oldest
      · rw [hold, SortedMap.get?_erase_self] at hm
        contradiction
      · rwa [SortedMap.get?_erase_of_ne _ hold] at hm
    unfold remember at h
    dsimp only at h
    rw [SortedMap.get?_insert_of_ne _ _ hj] at h
    split at h
    · split at h
      · exact herase _ h
      · exact h
    · exact h

theorem get?_completed_remember_eq_none (hj : j ≠ id) (h : l.completed.get? j = none) (result : Message) :
    (l.remember id result).completed.get? j = none := by
  rw [Option.eq_none_iff_forall_ne_some]
  intro m hm
  rcases get?_completed_remember hm with ⟨heq, -⟩ | hkept
  · exact hj heq
  · rw [h] at hkept
    contradiction

theorem queue_of_new (h : l.completed.get? id = none) (request : Message) :
    l.queue id request = { l with pending := l.pending.insert id request } := by
  rw [queue, SortedMap.contains, h]
  rfl

theorem queue_of_completed (h : l.completed.get? id = some m) (request : Message) : l.queue id request = l := by
  rw [queue, SortedMap.contains, h]
  rfl

/-- A new operation that is queued and carried out changes the ledger as its request does, and its result is kept. -/
theorem process_queue_of_new {request : Message} {l' : Ledger} (h : l.completed.get? id = none)
    (happly : { l with pending := (l.pending.insert id request).erase id }.apply id request = .ok (l', result)) :
    (l.queue id request).process id = (l'.remember id result, .ok result) := by
  rw [queue_of_new h]
  simp only [process, h, SortedMap.get?_insert_self, happly]

/-- A request has a result. -/
theorem apply_of_isRequest {request : Message} (h : IsRequest request = true) (l : Ledger) (id : OperationId) :
    ∃ l' result, l.apply id request = .ok (l', result) ∧ IsResult result = true ∧ l'.completed = l.completed := by
  cases request
  case hostRoom => exact ⟨_, _, rfl, rfl, rfl⟩
  case hostUpdated => exact ⟨_, _, rfl, rfl, rfl⟩
  case requestRoomList => exact ⟨_, _, rfl, rfl, rfl⟩
  all_goals contradiction

/-- All that a ledger keeps are results of requests. -/
def KeepsResults (l : Ledger) : Prop := ∀ id m, l.completed.get? id = some m → IsResult m = true

/-- An operation has a result, whether it is new or not. -/
theorem exists_process_queue {request : Message} (hl : l.KeepsResults) (h : IsRequest request = true) (id : OperationId) :
    ∃ l' result, (l.queue id request).process id = (l', .ok result) ∧ IsResult result = true ∧ l'.KeepsResults := by
  rcases hkept : l.completed.get? id with - | result
  · obtain ⟨l', result, happly, hresult, hcompleted⟩ :=
      apply_of_isRequest h { l with pending := (l.pending.insert id request).erase id } id
    refine ⟨l'.remember id result, result, process_queue_of_new hkept happly, hresult, fun j m hm => ?_⟩
    rcases get?_completed_remember hm with ⟨-, rfl⟩ | hold
    · exact hresult
    · exact hl j m (hcompleted ▸ hold)
  · refine ⟨l, result, ?_, hl id result hkept, hl⟩
    rw [queue_of_completed hkept, process, hkept]

end Ledger
end Parley.Directory

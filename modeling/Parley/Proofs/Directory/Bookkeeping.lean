import Parley.Proofs.Directory.Recall

/-!
# The books of a ledger

A ledger writes an operation down up to three times: among the queued ones, among the results, and in the list that says
which result is the oldest. Whatever is asked of it, the list and the results agree entry by entry, there are not more of
them than the limit says, and nothing that is queued has a result (`Ledger.bookkeeping`).

A request that cannot be carried out is taken off the queue before that is known. Nothing else is touched
(`Ledger.process_eq_error`), and nothing else fails but what is not known (`Ledger.exists_process_eq_error_iff`).
-/

namespace Parley.Directory.Ledger

variable {l l' : Ledger} {id : OperationId} {e : Fault} {result : Message}

/-! ## Results and the list of them -/

/-- A new operation comes to have one result, and none comes to have two. -/
theorem nodup_keys_remember (h : l.completed.keys.Nodup) (hid : l.completed.get? id = none) (result : Message) :
    (l.remember id result).completed.keys.Nodup := by
  have hnew : id ∉ l.completed.keys := (SortedMap.notMem_keys_iff _ id).2 hid
  unfold remember
  dsimp only
  split
  · split
    · refine SortedMap.nodup_keys_insert (SortedMap.nodup_keys_erase h _) ?_ result
      exact (SortedMap.notMem_keys_iff _ id).2 (SortedMap.get?_erase_eq_none hid _)
    · exact SortedMap.nodup_keys_insert h hnew result
  · exact SortedMap.nodup_keys_insert h hnew result

theorem nodup_keys_call (h : l.completed.keys.Nodup) (c : Call) : (l.call c).completed.keys.Nodup := by
  have o := outcome_call l c
  generalize l.call c = l', l.carried? c = done at o
  cases o with
  | same | queues | refuses => exact h
  | carriesOut id rooms result hnew hqueued =>
    exact nodup_keys_remember (l := { l with rooms, pending := l.pending.erase id }) h hnew result

theorem nodup_keys_run (h : l.completed.keys.Nodup) (cs : List Call) : (l.run cs).completed.keys.Nodup := by
  induction cs generalizing l with
  | nil => exact h
  | cons c cs ih => exact ih (nodup_keys_call h c)

/-- The list holds the operations with a result, each once. -/
theorem Orderly.perm_keys (h : l.Orderly) (hkeys : l.completed.keys.Nodup) : l.order.Perm l.completed.keys := by
  refine (List.perm_ext_iff_of_nodup h.nodup hkeys).2 fun id => ?_
  rw [h.mem_iff, SortedMap.mem_keys_iff]

/-- What is queued has no result. -/
theorem Orderly.disjoint (h : l.Orderly) : l.pending.keys.Disjoint l.completed.keys := by
  intro id hqueued hkept
  rw [SortedMap.mem_keys_iff] at hqueued hkept
  rw [h.settled id ((h.mem_iff id).2 hkept)] at hqueued
  cases hqueued

/-! ## Operations that fail -/

theorem apply_eq_error_iff {request : Message} :
    l.apply id request = .error e ↔ IsRequest request = false ∧ e = .unsupported request.label := by
  constructor
  · intro h
    cases request with
    | hostRoom | hostUpdated | requestRoomList => cases h
    | _ =>
      cases h
      exact ⟨rfl, rfl⟩
  · rintro ⟨hno, rfl⟩
    cases request with
    | hostRoom | hostUpdated | requestRoomList => cases hno
    | _ => rfl

/-- An operation that fails has no result, and is no longer queued. It was not queued, or it is no request for a directory. -/
theorem process_eq_error (h : l.process id = (l', .error e)) :
    l.completed.get? id = none ∧ l' = { l with pending := l.pending.erase id } ∧
      (l.pending.get? id = none ∧ e = .unknownOperation id ∨
        ∃ request, l.pending.get? id = some request ∧ IsRequest request = false ∧ e = .unsupported request.label) := by
  unfold process at h
  split at h
  · cases h
  · rename_i hnew
    split at h
    · rename_i habsent
      cases h
      have hkeys : id ∉ l.pending.keys := (SortedMap.notMem_keys_iff _ id).2 habsent
      exact ⟨hnew, by rw [SortedMap.erase_of_notMem hkeys], .inl ⟨habsent, rfl⟩⟩
    · rename_i request hqueued
      dsimp only at h
      split at h
      · rename_i fault hfails
        cases h
        exact ⟨hnew, rfl, .inr ⟨request, hqueued, apply_eq_error_iff.1 hfails⟩⟩
      · cases h

/-- An operation fails if it has no result and no request for a directory is queued for it. -/
theorem exists_process_eq_error_iff :
    (∃ l' e, l.process id = (l', .error e)) ↔
      l.completed.get? id = none ∧ ∀ request, l.pending.get? id = some request → IsRequest request = false := by
  constructor
  · rintro ⟨l', e, h⟩
    obtain ⟨hnew, -, ⟨habsent, -⟩ | ⟨request, hqueued, hno, -⟩⟩ := process_eq_error h
    · exact ⟨hnew, by rw [habsent]; nofun⟩
    · refine ⟨hnew, fun other hother => ?_⟩
      rw [hqueued] at hother
      exact Option.some.inj hother ▸ hno
  · rintro ⟨hnew, hno⟩
    cases hqueued : l.pending.get? id with
    | none => exact ⟨_, _, process_of_absent hnew hqueued⟩
    | some request =>
      have hfails : ({ l with pending := l.pending.erase id } : Ledger).apply id request =
          .error (.unsupported request.label) := apply_eq_error_iff.2 ⟨hno request hqueued, rfl⟩
      refine ⟨{ l with pending := l.pending.erase id }, .unsupported request.label, ?_⟩
      unfold process
      rw [hnew]
      dsimp only
      rw [hqueued]
      dsimp only
      rw [hfails]

/-- **The books agree.** Whatever has been asked of a ledger, the list of operations holds the last ones that were carried
out, none twice, and they are those that have a result; there are at most as many as the limit says, and at least one is
allowed; and no operation is queued and has a result. An operation fails exactly if it has no result and no request for a
directory is queued for it. Then the rooms, the results and the list are as they were, and nothing but the operation itself
is gone from the queue. -/
theorem bookkeeping (limit : Nat) (cs : List Call) :
    let l := (new limit).run cs
    l.order = ((new limit).carried cs).rtake (max limit 1) ∧ l.order.Nodup ∧ l.order.Perm l.completed.keys ∧
      l.order.length ≤ max limit 1 ∧ l.pending.keys.Disjoint l.completed.keys ∧
      ∀ id,
        ((∃ l' e, l.process id = (l', .error e)) ↔
          l.completed.get? id = none ∧ ∀ request, l.pending.get? id = some request → IsRequest request = false) ∧
        ∀ l' e, l.process id = (l', .error e) → l' = { l with pending := l.pending.erase id } := by
  intro l
  have h : l.Orderly := (orderly_new limit).run cs
  have hkeys : l.completed.keys.Nodup := nodup_keys_run (l := new limit) List.nodup_nil cs
  have hlimit : l.limit = max limit 1 := limit_run (new limit) cs
  exact ⟨order_run_new limit cs, h.nodup, h.perm_keys hkeys, hlimit ▸ h.length, h.disjoint, fun id =>
    ⟨exists_process_eq_error_iff, fun l' e he => (process_eq_error he).2.1⟩⟩

/-- With one result kept: two rooms are listed, and then a vote is queued, which is no request for a directory. -/
theorem bookkeeping_vote :
    let cs := listing 1 ++ listing 2 ++ [.queue (.ofNat 3) .requestRoomList, .queue (.ofNat 4) .leaderVote]
    let l := (new 0).run cs
    l.order = [.ofNat 2] ∧ l.order.Perm l.completed.keys ∧ l.pending.keys = [.ofNat 3, .ofNat 4] ∧
      ∃ e, l.process (.ofNat 4) = ({ l with pending := l.pending.erase (.ofNat 4) }, .error e) := by
  intro cs l
  obtain ⟨-, -, hperm, -, -, hfails⟩ := bookkeeping 0 cs
  have hvote : l.completed.get? (.ofNat 4) = none ∧ l.pending.get? (.ofNat 4) = some .leaderVote := by decide
  refine ⟨by decide, hperm, by decide, ?_⟩
  obtain ⟨l', e, he⟩ := (hfails (.ofNat 4)).1.2 ⟨hvote.1, fun request hrequest => by
    rw [hvote.2] at hrequest
    cases hrequest
    rfl⟩
  exact ⟨e, (hfails (.ofNat 4)).2 l' e he ▸ he⟩

end Parley.Directory.Ledger

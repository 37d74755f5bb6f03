import Mathlib.Data.List.DropRight
import Mathlib.Data.List.Nodup
import Parley.Proofs.Directory.Ledger
import Parley.Proofs.SortedMap

/-!
# For how long results are kept

A ledger keeps the results of the last operations that it has carried out, as many as its limit says
(`Ledger.order_run_new`). It keeps them in a map and their ids in a list, oldest first, and the two hold the same ids, none of
which is queued (`Ledger.Orderly`).

So an operation that has been carried out can be repeated while fewer others than the limit have been carried out since: it
has the same result and changes nothing. After that many it is unknown, unless it has been queued again
(`Ledger.repeats_within_limit`). What counts is when it was carried out and not when its result was last asked for: repeating
an operation does not make its result the newest one (`Ledger.repeated_result_goes`).
-/

namespace Parley.Directory.Ledger

/-- What is asked of a ledger: one of the two phases of an operation. -/
inductive Call where
  | queue (id : OperationId) (request : Message)
  | process (id : OperationId)
  deriving DecidableEq, Repr

/-- The ledger after a call. -/
def call (l : Ledger) : Call → Ledger
  | .queue id request => l.queue id request
  | .process id => (l.process id).1

/-- The ledger after calls, one after the other. -/
def run (l : Ledger) (cs : List Call) : Ledger := cs.foldl call l

/-- The operation that a call carries out. A result that is repeated does not count. -/
def carried? (l : Ledger) : Call → Option OperationId
  | .queue _ _ => none
  | .process id =>
    match l.completed.get? id, (l.process id).2 with
    | none, .ok _ => some id
    | _, _ => none

/-- The operations that calls carry out, in order. -/
def carried (l : Ledger) : List Call → List OperationId
  | [] => []
  | c :: cs => (l.carried? c).toList ++ (l.call c).carried cs

/-- How many operations other than a given one are carried out. -/
def others (l : Ledger) (id : OperationId) (cs : List Call) : Nat := (l.carried cs).countP (· ≠ id)

/-- The operation whose result has to go for the next one. -/
def oldest? (l : Ledger) : Option OperationId := if l.order.length = l.limit then l.order.head? else none

variable {l : Ledger} {id j : OperationId} {r result : Message}

theorem run_append (l : Ledger) (cs ds : List Call) : l.run (cs ++ ds) = (l.run cs).run ds := List.foldl_append

theorem carried_append (l : Ledger) (cs ds : List Call) : l.carried (cs ++ ds) = l.carried cs ++ (l.run cs).carried ds := by
  induction cs generalizing l with
  | nil => rfl
  | cons c cs ih =>
    rw [List.cons_append, carried, carried, ih, List.append_assoc]
    rfl

theorem carried_singleton (l : Ledger) (c : Call) : l.carried [c] = (l.carried? c).toList := List.append_nil _

theorem others_append (l : Ledger) (id : OperationId) (cs ds : List Call) :
    l.others id (cs ++ ds) = l.others id cs + (l.run cs).others id ds := by
  rw [others, carried_append, List.countP_append]
  rfl

/-! ## Keeping a result -/

theorem limit_remember (l : Ledger) (id : OperationId) (result : Message) : (l.remember id result).limit = l.limit := by
  unfold remember
  dsimp only
  split
  · split <;> rfl
  · rfl

theorem pending_remember (l : Ledger) (id : OperationId) (result : Message) :
    (l.remember id result).pending = l.pending := by
  unfold remember
  dsimp only
  split
  · split <;> rfl
  · rfl

theorem get?_completed_remember_self (l : Ledger) (id : OperationId) (result : Message) :
    (l.remember id result).completed.get? id = some result := SortedMap.get?_insert_self ..

theorem get?_completed_remember_of_ne (h : j ≠ id) (l : Ledger) (result : Message) :
    (l.remember id result).completed.get? j = if l.oldest? = some j then none else l.completed.get? j := by
  unfold remember oldest?
  dsimp only
  rw [SortedMap.get?_insert_of_ne _ _ h]
  split
  · rename_i oldest rest ho
    rw [ho]
    split
    · by_cases hj : oldest = j
      · simp [hj, SortedMap.get?_erase_self]
      · simp [hj, SortedMap.get?_erase_of_ne _ (Ne.symm hj)]
    · rfl
  · rename_i ho
    simp [ho]

/-- The new result is the newest one. -/
theorem order_remember (hpos : 0 < l.limit) (hlen : l.order.length ≤ l.limit) (id : OperationId) (result : Message) :
    (l.remember id result).order = l.order.rtake (l.limit - 1) ++ [id] := by
  unfold remember List.rtake
  dsimp only
  cases ho : l.order with
  | nil => simp [ho]
  | cons oldest rest =>
    rw [ho] at hlen
    dsimp only
    by_cases hfull : (oldest :: rest).length = l.limit
    · have hone : (oldest :: rest).length - (l.limit - 1) = 1 := by omega
      rw [if_pos hfull, hone]
      rfl
    · have hnone : (oldest :: rest).length - (l.limit - 1) = 0 := by omega
      rw [if_neg hfull, hnone, ho]
      rfl

/-! ## What a call can make of a ledger -/

/-- What a call makes of a ledger, and which operation it carries out. -/
inductive Outcome (l : Ledger) : Call → Ledger → Option OperationId → Prop
  /-- The operation has a result, or it is unknown. -/
  | same {c : Call} : Outcome l c l none
  | queues (id : OperationId) (request : Message) (h : l.completed.get? id = none) :
    Outcome l (.queue id request) { l with pending := l.pending.insert id request } none
  /-- The request cannot be carried out. -/
  | refuses (id : OperationId) : Outcome l (.process id) { l with pending := l.pending.erase id } none
  | carriesOut (id : OperationId) (rooms : SortedMap String Bytes) (result : Message) (h : l.completed.get? id = none)
    (hp : l.pending.get? id ≠ none) :
    Outcome l (.process id) (remember { l with rooms, pending := l.pending.erase id } id result) (some id)

/-- Carrying a request out changes nothing but the rooms. -/
theorem exists_rooms_of_apply {l' : Ledger} {request : Message} (h : l.apply id request = .ok (l', result)) :
    ∃ rooms, l' = { l with rooms } := by
  cases request with
  | hostRoom | hostUpdated | requestRoomList =>
    cases h
    exact ⟨_, rfl⟩
  | _ => cases h

theorem process_of_completed (h : l.completed.get? id = some r) : l.process id = (l, .ok r) := by
  rw [process, h]

theorem process_of_absent (h : l.completed.get? id = none) (hp : l.pending.get? id = none) :
    l.process id = (l, .error (.unknownOperation id)) := by
  rw [process, h]
  dsimp only
  rw [hp]

theorem outcome_call (l : Ledger) (c : Call) : Outcome l c (l.call c) (l.carried? c) := by
  cases c with
  | queue id request =>
    show Outcome l _ (l.queue id request) none
    cases h : l.completed.get? id with
    | some r =>
      rw [queue_of_completed h]
      exact .same
    | none =>
      rw [queue_of_new h]
      exact .queues id request h
  | process id =>
    show Outcome l _ (l.process id).1 _
    unfold carried?
    dsimp only
    cases h : l.completed.get? id with
    | some r =>
      rw [process_of_completed h]
      exact .same
    | none =>
      cases hp : l.pending.get? id with
      | none =>
        rw [process_of_absent h hp]
        exact .same
      | some request =>
        cases ha : apply { l with pending := l.pending.erase id } id request with
        | error e =>
          have hprocess : l.process id = ({ l with pending := l.pending.erase id }, .error e) := by
            simp only [process, h, hp, ha]
          rw [hprocess]
          exact .refuses id
        | ok x =>
          obtain ⟨l', result⟩ := x
          have hprocess : l.process id = (l'.remember id result, .ok result) := by
            simp only [process, h, hp, ha]
          obtain ⟨rooms, rfl⟩ := exists_rooms_of_apply ha
          rw [hprocess]
          exact .carriesOut id rooms result h (by simp [hp])

theorem limit_call (l : Ledger) (c : Call) : (l.call c).limit = l.limit := by
  have o := outcome_call l c
  generalize l.call c = l', l.carried? c = done at o
  cases o with
  | same | queues | refuses => rfl
  | carriesOut => exact limit_remember ..

/-! ## The list and the map -/

/-- The list of operations is that of the results that are kept: none twice, and not too many. None of them is queued. -/
structure Orderly (l : Ledger) : Prop where
  limit : 0 < l.limit
  length : l.order.length ≤ l.limit
  nodup : l.order.Nodup
  mem_iff : ∀ id, id ∈ l.order ↔ (l.completed.get? id).isSome = true
  settled : ∀ id ∈ l.order, l.pending.get? id = none

theorem orderly_new (limit : Nat) : (new limit).Orderly where
  limit := Nat.lt_of_lt_of_le Nat.zero_lt_one (Nat.le_max_right limit 1)
  length := Nat.zero_le _
  nodup := List.nodup_nil
  mem_iff _ := by simp [new, SortedMap.get?_empty]
  settled := nofun

theorem Orderly.notMem_iff (h : l.Orderly) : id ∉ l.order ↔ l.completed.get? id = none := by
  rw [h.mem_iff, Bool.not_eq_true, Option.isSome_eq_false_iff, Option.isNone_iff_eq_none]

/-- What stays on the list when a result is added: all but the oldest, if there are as many as are kept. -/
theorem Orderly.mem_rtake_iff (h : l.Orderly) : j ∈ l.order.rtake (l.limit - 1) ↔ j ∈ l.order ∧ l.oldest? ≠ some j := by
  have hlimit := h.limit
  unfold oldest? List.rtake
  by_cases hfull : l.order.length = l.limit
  · have hone : l.order.length - (l.limit - 1) = 1 := by omega
    have hnodup := h.nodup
    rw [if_pos hfull, hone]
    cases ho : l.order with
    | nil => simp
    | cons oldest rest =>
      rw [ho, List.nodup_cons] at hnodup
      simp only [List.drop_one, List.tail_cons, List.head?_cons, ne_eq, Option.some.injEq, List.mem_cons]
      constructor
      · intro hj
        refine ⟨.inr hj, ?_⟩
        rintro rfl
        exact hnodup.1 hj
      · rintro ⟨rfl | hj, hne⟩
        · exact absurd rfl hne
        · exact hj
  · have hlength := h.length
    have hnone : l.order.length - (l.limit - 1) = 0 := by omega
    simp [hnone, hfull]

theorem Orderly.remember (h : l.Orderly) (hid : l.completed.get? id = none) (hp : l.pending.get? id = none)
    (result : Message) : (l.remember id result).Orderly := by
  have horder := order_remember h.limit h.length id result
  have hmem (j : OperationId) : j ∈ (l.remember id result).order ↔ j = id ∨ j ∈ l.order ∧ l.oldest? ≠ some j := by
    rw [horder, List.mem_append, List.mem_singleton, h.mem_rtake_iff, or_comm]
  refine ⟨?_, ?_, ?_, fun j => ?_, fun j hj => ?_⟩
  · rw [limit_remember]
    exact h.limit
  · have hlimit := h.limit
    rw [horder, limit_remember, List.length_append, List.length_singleton, List.rtake, List.length_drop]
    omega
  · rw [horder, ← List.concat_eq_append]
    refine List.Nodup.concat (fun hmem => h.notMem_iff.2 hid ?_) (h.nodup.sublist (List.drop_sublist _ _))
    exact List.mem_of_mem_drop hmem
  · rw [hmem]
    by_cases hj : j = id
    · simp [hj, get?_completed_remember_self]
    · rw [get?_completed_remember_of_ne hj, h.mem_iff]
      by_cases hold : l.oldest? = some j <;> simp [hj, hold]
  · rw [pending_remember]
    rcases (hmem j).1 hj with rfl | ⟨hkept, -⟩
    · exact hp
    · exact h.settled j hkept

theorem Orderly.call (h : l.Orderly) (c : Call) : (l.call c).Orderly := by
  have o := outcome_call l c
  generalize l.call c = l', l.carried? c = done at o
  cases o with
  | same => exact h
  | queues id request hnew =>
    refine ⟨h.limit, h.length, h.nodup, h.mem_iff, fun j hj => ?_⟩
    have hne : j ≠ id := by
      rintro rfl
      exact h.notMem_iff.2 hnew hj
    exact (SortedMap.get?_insert_of_ne _ _ hne).trans (h.settled j hj)
  | refuses id =>
    refine ⟨h.limit, h.length, h.nodup, h.mem_iff, fun j hj => ?_⟩
    exact SortedMap.get?_erase_eq_none (h.settled j hj) id
  | carriesOut id rooms result hnew hqueued =>
    have hkept : Orderly { l with rooms, pending := l.pending.erase id } :=
      ⟨h.limit, h.length, h.nodup, h.mem_iff, fun j hj => SortedMap.get?_erase_eq_none (h.settled j hj) id⟩
    exact hkept.remember hnew (SortedMap.get?_erase_self ..) result

theorem Orderly.run (h : l.Orderly) (cs : List Call) : (l.run cs).Orderly := by
  induction cs generalizing l with
  | nil => exact h
  | cons c cs ih => exact ih (h.call c)

/-! ## What is kept over a run -/

theorem rtake_of_length_le {α : Type} {xs : List α} {n : Nat} (h : xs.length ≤ n) : xs.rtake n = xs := by
  rw [List.rtake, Nat.sub_eq_zero_of_le h, List.drop_zero]

/-- Of the last of many only the last can stay the last when more come. -/
theorem rtake_rtake_append {α : Type} (xs ys : List α) (n : Nat) : (xs.rtake n ++ ys).rtake n = (xs ++ ys).rtake n := by
  simp only [List.rtake_eq_reverse_take_reverse, List.reverse_append, List.reverse_reverse, List.take_append,
    List.take_take]
  rw [Nat.min_eq_left (Nat.sub_le ..)]

/-- What is not among the new ones stays among the last while there are not too many of them. -/
theorem mem_rtake_append_cons {α : Type} {x : α} {xs ys : List α} {n : Nat} (hx : x ∉ ys) :
    x ∈ (xs ++ x :: ys).rtake n ↔ ys.length < n := by
  rw [List.rtake, List.drop_append, List.length_append, List.length_cons, List.mem_append]
  constructor
  · intro hmem
    by_contra hn
    have hxs : xs.length ≤ xs.length + (ys.length + 1) - n := by omega
    have hys : xs.length + (ys.length + 1) - n - xs.length = ys.length - n + 1 := by omega
    rw [List.drop_eq_nil_of_le hxs, hys, List.drop_succ_cons] at hmem
    exact hx (List.mem_of_mem_drop (hmem.resolve_left List.not_mem_nil))
  · intro hn
    have hkept : xs.length + (ys.length + 1) - n - xs.length = 0 := by omega
    rw [hkept, List.drop_zero]
    exact .inr List.mem_cons_self

theorem limit_run (l : Ledger) (cs : List Call) : (l.run cs).limit = l.limit := by
  induction cs generalizing l with
  | nil => rfl
  | cons c cs ih => exact (ih _).trans (limit_call l c)

/-- A call that carries nothing out leaves the results alone; another one puts its operation last. -/
theorem Orderly.order_call (h : l.Orderly) (c : Call) :
    (l.call c).order = (l.order ++ (l.carried? c).toList).rtake l.limit := by
  have hall : (l.order ++ []).rtake l.limit = l.order := by
    rw [List.append_nil, rtake_of_length_le h.length]
  have o := outcome_call l c
  generalize l.call c = l', l.carried? c = done at o
  cases o with
  | same | queues | refuses => exact hall.symm
  | carriesOut id rooms result hnew hqueued =>
    have hlast := order_remember (l := { l with rooms, pending := l.pending.erase id }) h.limit h.length id result
    dsimp only at hlast
    rw [hlast, Option.toList_some, ← List.rtake_concat_succ, Nat.sub_one_add_one h.limit.ne']

theorem Orderly.order_run (h : l.Orderly) (cs : List Call) : (l.run cs).order = (l.order ++ l.carried cs).rtake l.limit := by
  induction cs using List.reverseRecOn with
  | nil =>
    rw [carried, List.append_nil, rtake_of_length_le h.length]
    rfl
  | append_singleton cs c ih =>
    have horder := (h.run cs).order_call c
    rw [limit_run, ih, rtake_rtake_append, List.append_assoc] at horder
    rw [run_append, carried_append, carried_singleton]
    exact horder

/-- **A ledger keeps the results of the last operations that it has carried out**, as many as its limit says. -/
theorem order_run_new (limit : Nat) (cs : List Call) :
    ((new limit).run cs).order = ((new limit).carried cs).rtake (max limit 1) := (orderly_new limit).order_run cs

/-! ## Repeating an operation -/

/-- Only an operation that is queued and has no result is carried out. -/
theorem of_carried? {c : Call} (h : l.carried? c = some id) :
    l.completed.get? id = none ∧ l.pending.get? id ≠ none := by
  have o := outcome_call l c
  rw [h] at o
  generalize l.call c = l' at o
  cases o with
  | carriesOut id rooms result hnew hqueued => exact ⟨hnew, hqueued⟩

/-- A result that is kept after a call is new, or was kept before. -/
theorem get?_completed_call {c : Call} (h : (l.call c).completed.get? id = some r) :
    l.carried? c = some id ∨ l.completed.get? id = some r := by
  have o := outcome_call l c
  generalize l.call c = l', l.carried? c = done at o h
  cases o with
  | same | queues | refuses => exact .inr h
  | carriesOut j rooms result hnew hqueued =>
    rcases get?_completed_remember h with ⟨rfl, -⟩ | hkept
    · exact .inl rfl
    · exact .inr hkept

/-- Nothing is queued but by queueing it. -/
theorem get?_pending_call {c : Call} (h : l.pending.get? id = none) (hc : ∀ request, c ≠ .queue id request) :
    (l.call c).pending.get? id = none := by
  have o := outcome_call l c
  generalize l.call c = l', l.carried? c = done at o
  cases o with
  | same => exact h
  | queues j request hnew =>
    have hne : id ≠ j := by
      rintro rfl
      exact hc request rfl
    exact (SortedMap.get?_insert_of_ne _ _ hne).trans h
  | refuses j => exact SortedMap.get?_erase_eq_none h j
  | carriesOut j rooms result hnew hqueued =>
    rw [pending_remember]
    exact SortedMap.get?_erase_eq_none h j

/-- An operation that has no result and is not queued. -/
structure Unknown (l : Ledger) (id : OperationId) : Prop where
  completed : l.completed.get? id = none
  pending : l.pending.get? id = none

theorem Unknown.call {c : Call} (h : l.Unknown id) (hc : ∀ request, c ≠ .queue id request) : (l.call c).Unknown id := by
  refine ⟨?_, get?_pending_call h.pending hc⟩
  rw [Option.eq_none_iff_forall_ne_some]
  intro m hm
  rcases get?_completed_call hm with hdone | hkept
  · exact (of_carried? hdone).2 h.pending
  · rw [h.completed] at hkept
    cases hkept

/-- The result that is given is kept. -/
theorem get?_completed_of_process {l' : Ledger} (h : l.process id = (l', .ok r)) : l'.completed.get? id = some r := by
  unfold process at h
  split at h
  · rename_i hkept
    cases h
    exact hkept
  · split at h
    · cases h
    · dsimp only at h
      split at h
      · cases h
      · cases h
        exact get?_completed_remember_self ..

/-- An operation that has just been carried out. -/
structure Newest (l : Ledger) (id : OperationId) (r : Message) : Prop where
  orderly : l.Orderly
  order : ∃ before, l.order = before ++ [id]
  completed : l.completed.get? id = some r

theorem Newest.mem_order_run (h : l.Newest id r) {cs : List Call} (hid : id ∉ l.carried cs) :
    id ∈ (l.run cs).order ↔ (l.carried cs).length < l.limit := by
  obtain ⟨before, hlast⟩ := h.order
  rw [h.orderly.order_run, hlast, List.append_assoc]
  exact mem_rtake_append_cons hid

/-- Those that are carried out are others where the operation itself is not. -/
theorem others_of_notMem {cs : List Call} (hid : id ∉ l.carried cs) : l.others id cs = (l.carried cs).length := by
  refine List.countP_eq_length.2 fun j hj => decide_eq_true ?_
  rintro rfl
  exact hid hj

/-- An operation whose result is kept is not carried out. -/
theorem notMem_carried_concat {cs : List Call} (hid : id ∉ l.carried cs) (hkept : (l.run cs).completed.get? id = some r)
    (c : Call) : id ∉ l.carried (cs ++ [c]) := by
  rw [carried_append, carried_singleton, List.mem_append, Option.mem_toList]
  rintro (hmem | hdone)
  · exact hid hmem
  · rw [(of_carried? hdone).1] at hkept
    cases hkept

/-- It is not carried out again while few others are, and its result is kept. -/
theorem Newest.kept (h : l.Newest id r) (cs : List Call) (hfew : l.others id cs < l.limit) :
    id ∉ l.carried cs ∧ (l.run cs).completed.get? id = some r := by
  induction cs using List.reverseRecOn with
  | nil => exact ⟨List.not_mem_nil, h.completed⟩
  | append_singleton cs c ih =>
    rw [others_append] at hfew
    obtain ⟨hid, hkept⟩ := ih (by omega)
    have hids := notMem_carried_concat hid hkept c
    have hmem : id ∈ (l.run (cs ++ [c])).order := by
      rw [h.mem_order_run hids, ← others_of_notMem hids, others_append]
      exact hfew
    refine ⟨hids, ?_⟩
    obtain ⟨r', hr'⟩ := Option.isSome_iff_exists.1 (((h.orderly.run _).mem_iff id).1 hmem)
    rw [hr']
    rw [run_append] at hr'
    rcases get?_completed_call hr' with hdone | hr
    · rw [(of_carried? hdone).1] at hkept
      cases hkept
    · rw [← hkept, ← hr]

/-- After many others its result is forgotten. -/
theorem Newest.forgotten (h : l.Newest id r) {cs : List Call} (hid : id ∉ l.carried cs)
    (hmany : l.limit ≤ l.others id cs) : (l.run cs).completed.get? id = none := by
  rw [← (h.orderly.run cs).notMem_iff, h.mem_order_run hid, ← others_of_notMem hid]
  exact Nat.not_lt.2 hmany

/-- It is unknown after many others, unless it is queued again. -/
theorem Newest.unknown (h : l.Newest id r) (cs : List Call) (hmany : l.limit ≤ l.others id cs)
    (hq : ∀ before request after, cs = before ++ .queue id request :: after → l.others id before < l.limit) :
    (l.run cs).Unknown id := by
  induction cs using List.reverseRecOn with
  | nil => exact absurd h.orderly.limit (Nat.not_lt.2 hmany)
  | append_singleton cs c ih =>
    have hbefore : ∀ before request after, cs = before ++ .queue id request :: after → l.others id before < l.limit :=
      fun before request after hcs => hq before request (after ++ [c]) (by rw [hcs]; simp)
    rw [run_append]
    by_cases hfew : l.others id cs < l.limit
    · -- This call carries out the last one that it takes.
      obtain ⟨hid, hkept⟩ := h.kept cs hfew
      have hgone := h.forgotten (notMem_carried_concat hid hkept c) hmany
      have hmem : id ∈ (l.run cs).order := ((h.orderly.run cs).mem_iff id).2 (by rw [hkept]; rfl)
      rw [run_append] at hgone
      refine ⟨hgone, get?_pending_call ((h.orderly.run cs).settled id hmem) ?_⟩
      rintro request rfl
      have hnone : (l.run cs).others id [.queue id request] = 0 := rfl
      rw [others_append, hnone] at hmany
      exact absurd hfew (Nat.not_lt.2 hmany)
    · refine (ih (Nat.not_lt.1 hfew) hbefore).call fun request hc => hfew ?_
      exact hq cs request [] (by rw [hc])

/-- A new result is the newest one. -/
theorem Orderly.newest (h : l.Orderly) {l' : Ledger} (hnew : l.completed.get? id = none)
    (hok : l.process id = (l', .ok r)) : l'.Newest id r := by
  have hcall : l.call (.process id) = l' := congrArg Prod.fst hok
  have hdone : l.carried? (.process id) = some id := by
    unfold carried?
    dsimp only
    rw [hnew, hok]
  have horder := h.order_call (.process id)
  obtain ⟨n, hn⟩ := Nat.exists_eq_succ_of_ne_zero h.limit.ne'
  rw [hcall, hdone, hn, Option.toList_some, List.rtake_concat_succ] at horder
  exact ⟨hcall ▸ h.call _, ⟨_, horder⟩, get?_completed_of_process hok⟩

/-- **For how long an operation can be repeated.** When an operation has been carried out, and fewer others than the limit
have been carried out since, it has the same result as often as it is asked for, which changes nothing, no more than queueing
it again does; it is not carried out a second time. Once as many others have been carried out its result is forgotten: the
operation is unknown, unless it has been queued again after that. -/
theorem repeats_within_limit {limit : Nat} {past : List Call} {id : OperationId} {l : Ledger} {r : Message}
    (hnew : ((new limit).run past).completed.get? id = none)
    (hok : ((new limit).run past).process id = (l, .ok r)) (cs : List Call) :
    (l.others id cs < max limit 1 →
      (l.run cs).process id = (l.run cs, .ok r) ∧ (∀ request, (l.run cs).queue id request = l.run cs) ∧
        id ∉ l.carried cs) ∧
      (max limit 1 ≤ l.others id cs →
        (∀ before request after, cs = before ++ .queue id request :: after → l.others id before < max limit 1) →
        (l.run cs).process id = (l.run cs, .error (.unknownOperation id))) := by
  have h : l.Newest id r := ((orderly_new limit).run past).newest hnew hok
  have hlimit : l.limit = max limit 1 := by
    have hcall : ((new limit).run past).call (.process id) = l := congrArg Prod.fst hok
    rw [← hcall, limit_call, limit_run]
    rfl
  rw [← hlimit]
  refine ⟨fun hfew => ?_, fun hmany hq => ?_⟩
  · obtain ⟨hid, hkept⟩ := h.kept cs hfew
    exact ⟨process_of_completed hkept, queue_of_completed hkept, hid⟩
  · have hunknown := h.unknown cs hmany hq
    exact process_of_absent hunknown.completed hunknown.pending

/-- The calls that carry out a listing of the rooms. -/
def listing (n : Nat) : List Call := [.queue (.ofNat n) .requestRoomList, .process (.ofNat n)]

/-- With two results kept, an operation can be repeated after one other, and not after two. -/
theorem repeats_within_limit_two :
    let l := (new 2).run (listing 1)
    (l.run (listing 2)).process (.ofNat 1) = (l.run (listing 2), .ok (.roomList [])) ∧
      (l.run (listing 2 ++ listing 3)).process (.ofNat 1) =
        (l.run (listing 2 ++ listing 3), .error (.unknownOperation (.ofNat 1))) := by
  intro l
  let past : List Call := [.queue (.ofNat 1) .requestRoomList]
  have hnew : ((new 2).run past).completed.get? (.ofNat 1) = none := by decide
  have hok : ((new 2).run past).process (.ofNat 1) = (l, .ok (.roomList [])) := by decide
  obtain ⟨hrepeat, -⟩ := repeats_within_limit hnew hok (listing 2)
  obtain ⟨-, hforget⟩ := repeats_within_limit hnew hok (listing 2 ++ listing 3)
  refine ⟨(hrepeat (by decide)).1, hforget (by decide) fun before request after hcs => ?_⟩
  have hmem : .queue (.ofNat 1) request ∈ listing 2 ++ listing 3 := hcs ▸ by simp
  simp [listing, OperationId.ofNat] at hmem

/-- With two results kept, the older one is asked for again, and then another operation is carried out. -/
theorem repeated_result_goes :
    ¬ ∀ (limit : Nat) (past : List Call) (id : OperationId) (l : Ledger) (r : Message),
      ((new limit).run past).process id = (l, .ok r) → ∀ cs, l.others id cs < max limit 1 →
        (l.run cs).process id = (l.run cs, .ok r) := by
  intro h
  have hrepeat := h 2 (listing 1 ++ listing 2) (.ofNat 1) ((new 2).run (listing 1 ++ listing 2)) (.roomList [])
    (by decide) (listing 3) (by decide)
  exact absurd (congrArg Prod.snd hrepeat) (by decide)

end Parley.Directory.Ledger

import Parley.Proofs.Pending

/-!
# Taking turns

A queue is put to use: entries are put in, and what a clock has reached is taken off (`Pending.Use`). To tell entries of the
same stamp apart, every entry is given its number, the count of those put in before it (`Pending.numbered`). Numbers change
nothing, neither what is held (`Pending.unnumbered_foldl`) nor what is taken off (`Pending.poppedFrom_unnumbered`). At any
time the queue holds what has been put in and not been taken off (`Pending.perm_foldl`), in the order of stamps and, among
equal ones, of numbers (`Pending.InTurn.foldl`).

A clock takes off the longest beginning that it can reach if it is moved on once for each entry before
(`Pending.reached_iff`). This is all that `Pending.drain` does (`Pending.drains_reached`).
-/

namespace Parley.Pending

variable {α : Type}

/-! ## Using a queue -/

/-- What is done with a queue. -/
inductive Use (α : Type) where
  /-- An item is put in with a stamp. -/
  | push (stamp : UInt64) (a : α)
  /-- What a clock has reached is taken off. -/
  | drain (c : Clock)

/-- The queue after a use. -/
def after (q : Pending α) : Use α → Pending α
  | .push stamp a => q.push stamp a
  | .drain c => (q.drain c).2.1

/-- What is taken off by a use. -/
def taken (q : Pending α) : Use α → List (UInt64 × α)
  | .push _ _ => []
  | .drain c => (q.drain c).1

/-- The queue after uses. -/
def build (us : List (Use α)) : Pending α := us.foldl after empty

/-- What uses of a queue take off, one after the other. -/
def poppedFrom (q : Pending α) : List (Use α) → List (UInt64 × α)
  | [] => []
  | u :: us => q.taken u ++ poppedFrom (q.after u) us

/-- What uses take off. -/
def popped (us : List (Use α)) : List (UInt64 × α) := poppedFrom empty us

/-- What uses put in. -/
def pushed (us : List (Use α)) : List (UInt64 × α) :=
  us.filterMap fun
    | .push stamp a => some (stamp, a)
    | .drain _ => none

/-- Uses whose items are numbered from `n` on. -/
def numberedFrom (n : Nat) : List (Use α) → List (Use (Nat × α))
  | [] => []
  | .push stamp a :: us => .push stamp (n, a) :: numberedFrom (n + 1) us
  | .drain c :: us => .drain c :: numberedFrom n us

/-- Uses whose items are numbered. -/
def numbered (us : List (Use α)) : List (Use (Nat × α)) := numberedFrom 0 us

/-- An entry without its number. -/
def plain (e : UInt64 × (Nat × α)) : UInt64 × α := (e.1, e.2.2)

/-- The order of turns: by stamp, and then by number. -/
def Before (d e : UInt64 × (Nat × α)) : Prop := d.1 < e.1 ∨ d.1 = e.1 ∧ d.2.1 < e.2.1

/-- The queue without numbers. -/
def unnumbered (q : Pending (Nat × α)) : Pending α := ⟨q.entries.map plain⟩

/-- A clock that is moved on once for each entry before reaches each of the first `k` entries. -/
def Reached (now : UInt64) (es : List (UInt64 × α)) (k : Nat) : Prop :=
  ∀ i e, i < k → es[i]? = some e → e.1.toNat ≤ min (now.toNat + i) (UInt64.size - 1)

/-! ## Numbers change nothing -/

theorem map_plain_insertEntry (stamp : UInt64) (a : Nat × α) (es : List (UInt64 × (Nat × α))) :
    (insertEntry stamp a es).map plain = insertEntry stamp a.2 (es.map plain) := by
  induction es with
  | nil => rfl
  | cons e es ih =>
    have hplain : (plain e).1 = e.1 := rfl
    rw [List.map_cons]
    unfold insertEntry
    rw [hplain, ← ih]
    split <;> rfl

theorem map_plain_drainEntries (now : UInt64) (es : List (UInt64 × (Nat × α))) :
    drainEntries now (es.map plain) =
      ((drainEntries now es).1.map plain, (drainEntries now es).2.1.map plain, (drainEntries now es).2.2) := by
  induction es generalizing now with
  | nil => rfl
  | cons e es ih =>
    have hplain : (plain e).1 = e.1 := rfl
    rw [List.map_cons]
    unfold drainEntries
    rw [hplain, ih]
    split <;> rfl

theorem unnumbered_push (q : Pending (Nat × α)) (stamp : UInt64) (a : Nat × α) :
    q.unnumbered.push stamp a.2 = (q.push stamp a).unnumbered :=
  congrArg Pending.mk (map_plain_insertEntry stamp a q.entries).symm

theorem unnumbered_drain (q : Pending (Nat × α)) (c : Clock) :
    q.unnumbered.drain c = ((q.drain c).1.map plain, (q.drain c).2.1.unnumbered, (q.drain c).2.2) := by
  cases c with
  | unsynced => rfl
  | synced now =>
    simp only [drain, unnumbered]
    rw [map_plain_drainEntries]

theorem unnumbered_foldl (us : List (Use α)) (n : Nat) (q : Pending (Nat × α)) :
    us.foldl after q.unnumbered = ((numberedFrom n us).foldl after q).unnumbered := by
  induction us generalizing n q with
  | nil => rfl
  | cons u us ih =>
    cases u with
    | push stamp a =>
      rw [List.foldl_cons, numberedFrom, List.foldl_cons, ← ih]
      exact congrArg (us.foldl after) (q.unnumbered_push stamp (n, a))
    | drain c =>
      rw [List.foldl_cons, numberedFrom, List.foldl_cons, ← ih]
      exact congrArg (us.foldl after) (congrArg (·.2.1) (q.unnumbered_drain c))

theorem poppedFrom_unnumbered (us : List (Use α)) (n : Nat) (q : Pending (Nat × α)) :
    poppedFrom q.unnumbered us = (poppedFrom q (numberedFrom n us)).map plain := by
  induction us generalizing n q with
  | nil => rfl
  | cons u us ih =>
    cases u with
    | push stamp a =>
      rw [numberedFrom, poppedFrom, poppedFrom, List.map_append, ← ih]
      exact congrArg (poppedFrom · us) (q.unnumbered_push stamp (n, a))
    | drain c =>
      rw [numberedFrom, poppedFrom, poppedFrom, List.map_append, ← ih]
      simp only [taken, after]
      rw [unnumbered_drain]

/-! ## What a queue holds -/

/-- What is taken off is a beginning of the queue, and the rest stays. -/
theorem drain_append (q : Pending α) (c : Clock) : (q.drain c).1 ++ (q.drain c).2.1.entries = q.entries := by
  cases c with
  | unsynced => rfl
  | synced now => exact drainEntries_append now q.entries

/-- A queue loses what is taken off, and gains what is put in. -/
theorem perm_foldl (us : List (Use α)) (q : Pending α) :
    (poppedFrom q us ++ (us.foldl after q).entries).Perm (q.entries ++ pushed us) := by
  induction us generalizing q with
  | nil => exact (List.append_nil _).symm ▸ .refl _
  | cons u us ih =>
    cases u with
    | push stamp a =>
      have hpush := (perm_insertEntry stamp a q.entries).append_right (pushed us)
      rw [List.append_assoc] at hpush
      exact (ih (q.push stamp a)).trans hpush
    | drain c =>
      rw [poppedFrom, List.append_assoc, List.foldl_cons, ← q.drain_append c, List.append_assoc]
      exact (ih _).append_left _

/-! ## In turn -/

/-- The entries of a queue stand in the order of turns, and their numbers are below `n`. -/
structure InTurn (n : Nat) (q : Pending (Nat × α)) : Prop where
  order : q.entries.Pairwise Before
  lt : ∀ e ∈ q.entries, e.2.1 < n

variable {n : Nat} {q : Pending (Nat × α)}

theorem InTurn.sorted (h : InTurn n q) : Sorted q.entries :=
  h.order.imp fun hb => hb.elim UInt64.le_of_lt fun he => UInt64.le_of_eq he.1

/-- The next entry goes behind those of its stamp, which have smaller numbers. -/
theorem InTurn.push (h : InTurn n q) (stamp : UInt64) (a : α) : InTurn (n + 1) (q.push stamp (n, a)) := by
  obtain ⟨before, after, hes, hi, hb, ha⟩ := insertEntry_split stamp (n, a) h.sorted
  have horder := h.order
  have hlt := h.lt
  rw [hes] at horder hlt
  obtain ⟨h₁, h₂, h₃⟩ := List.pairwise_append.1 horder
  refine ⟨?_, ?_⟩
  · simp only [Pending.push, hi]
    refine List.pairwise_append.2 ⟨h₁, List.pairwise_cons.2 ⟨fun e he => .inl (ha e he), h₂⟩, fun d hd e he => ?_⟩
    rcases List.mem_cons.1 he with rfl | he
    · rcases UInt64.lt_or_eq_of_le (hb d hd) with hs | hs
      · exact .inl hs
      · exact .inr ⟨hs, hlt d (List.mem_append_left _ hd)⟩
    · exact h₃ d hd e he
  · intro e he
    simp only [Pending.push, hi, List.mem_append, List.mem_cons] at he
    rcases he with he | rfl | he
    · exact Nat.lt_succ_of_lt (hlt e (List.mem_append_left _ he))
    · exact Nat.lt_succ_self n
    · exact Nat.lt_succ_of_lt (hlt e (List.mem_append_right _ he))

theorem InTurn.drain (h : InTurn n q) (c : Clock) : InTurn n (q.drain c).2.1 := by
  have horder := h.order
  rw [← q.drain_append c] at horder
  refine ⟨(List.pairwise_append.1 horder).2.1, fun e he => h.lt e ?_⟩
  rw [← q.drain_append c]
  exact List.mem_append_right _ he

theorem InTurn.foldl (h : InTurn n q) (us : List (Use α)) : ∃ k, InTurn k ((numberedFrom n us).foldl after q) := by
  induction us generalizing n q with
  | nil => exact ⟨n, h⟩
  | cons u us ih =>
    cases u with
    | push stamp a => exact ih (h.push stamp a)
    | drain c => exact ih (h.drain c)

theorem inTurn_empty : InTurn 0 (empty : Pending (Nat × α)) := ⟨.nil, fun _ he => nomatch he⟩

/-! ## How far a clock reaches -/

theorem Reached.mono {now : UInt64} {es : List (UInt64 × α)} {j k : Nat} (h : Reached now es k) (hle : j ≤ k) :
    Reached now es j :=
  fun i e hi => h i e (Nat.lt_of_lt_of_le hi hle)

/-- What is taken off is reached. -/
theorem reached_drainEntries (now : UInt64) (es : List (UInt64 × α)) :
    Reached now es (drainEntries now es).1.length := by
  induction es generalizing now with
  | nil => exact fun i e hi => absurd hi (Nat.not_lt_zero i)
  | cons d es ih =>
    unfold drainEntries
    by_cases hd : d.1 ≤ now
    · rw [if_pos hd]
      rintro (_ | i) e hi he
      · obtain rfl : d = e := Option.some.inj he
        have hle := UInt64.le_iff_toNat_le.1 hd
        have hlt := now.toNat_lt_size
        omega
      · have hreach := ih (Clock.next now) i e (Nat.lt_of_succ_lt_succ hi) he
        rw [Clock.toNat_next] at hreach
        omega
    · rw [if_neg hd]
      exact fun i e hi => absurd hi (Nat.not_lt_zero i)

/-- No longer beginning is reached. -/
theorem le_of_reached {now : UInt64} {es : List (UInt64 × α)} {k : Nat} (h : Reached now es k) (hk : k ≤ es.length) :
    k ≤ (drainEntries now es).1.length := by
  refine Nat.le_of_not_lt fun hlt => ?_
  have hat := List.getElem?_eq_getElem (Nat.lt_of_lt_of_le hlt hk)
  have hstop : es[(drainEntries now es).1.length] ∈ (drainEntries now es).2.1.head? := by
    rw [← drop_drainEntries, List.head?_drop, hat]
    rfl
  have hhead := lt_of_mem_head hstop
  have hreach := h _ _ hlt hat
  rw [UInt64.lt_iff_toNat_lt, toNat_drainEntries] at hhead
  omega

/-- The beginnings that are reached are those of what is taken off. -/
theorem reached_iff {now : UInt64} {es : List (UInt64 × α)} {k : Nat} (hk : k ≤ es.length) :
    Reached now es k ↔ k ≤ (drainEntries now es).1.length :=
  ⟨fun h => le_of_reached h hk, fun h => (reached_drainEntries now es).mono h⟩

/-- **A queue lets through what a clock has reached, in turn.** The queue holds what has been put in and not been taken off,
by stamps and, among equal ones, in the order in which it was put in. Without a time nothing is taken off. At a time the
longest beginning is taken off that is reached, the rest stays, the clock is moved on once for each entry, and looking again
takes nothing off. -/
theorem drains_reached (us : List (Use α)) :
    ((popped (numbered us) ++ (build (numbered us)).entries).Perm (pushed (numbered us)) ∧
        (build (numbered us)).entries.Pairwise Before ∧
        popped us = (popped (numbered us)).map plain ∧
        (build us).entries = (build (numbered us)).entries.map plain) ∧
      (build us).drain .unsynced = ([], build us, .unsynced) ∧
      ∀ now, ∃ k time,
        k ≤ (build us).size ∧ (∀ j ≤ (build us).size, Reached now (build us).entries j ↔ j ≤ k) ∧
        time.toNat = min (now.toNat + k) (UInt64.size - 1) ∧
        (build us).drain (.synced now) =
          ((build us).entries.take k, ⟨(build us).entries.drop k⟩, .synced time) ∧
        Pending.drain ⟨(build us).entries.drop k⟩ (.synced time) =
          ([], ⟨(build us).entries.drop k⟩, .synced time) := by
  refine ⟨⟨?_, ?_, ?_, ?_⟩, rfl, fun now => ?_⟩
  · exact perm_foldl (numbered us) empty
  · obtain ⟨k, h⟩ := inTurn_empty.foldl us
    exact h.order
  · exact poppedFrom_unnumbered us 0 empty
  · exact congrArg entries (unnumbered_foldl us 0 empty)
  · generalize build us = q
    refine ⟨(drainEntries now q.entries).1.length, (drainEntries now q.entries).2.2, ?_, fun j hj => reached_iff hj,
      toNat_drainEntries now q.entries, ?_, ?_⟩
    · rw [← take_drainEntries, List.length_take]
      exact Nat.min_le_right _ _
    · rw [take_drainEntries, drop_drainEntries]
      rfl
    · have hstuck := drainEntries_of_ahead_head fun e (he : e ∈ (drainEntries now q.entries).2.1.head?) =>
        lt_of_mem_head he
      rw [drop_drainEntries, Pending.drain, hstuck]

example :
    (build [.push 2 "a", .push 1 "b", .drain .unsynced, .push 2 "c", .push 9 "d"]).drain (.synced 1) =
      ([(1, "b"), (2, "a"), (2, "c")], ⟨[(9, "d")]⟩, .synced 4) := by decide

end Parley.Pending

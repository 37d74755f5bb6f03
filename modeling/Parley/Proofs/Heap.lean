import Parley.Proofs.Turns

/-!
# Heaps that count

A heap gives its least entry first, and keeps no other order. So every item that is put in bears its number, and of entries
with the same stamp the one with the smaller number is less (`Pending.Before`). The number of the next item is kept beside the
heap, also when the heap is cleared; numbers do not run out.

A queue needs no numbers: it puts an item behind those that came before it. `Heap.Agrees` relates a heap to the queue that
holds the same entries in the order of their turns. Everything that is done with both keeps them so (`Heap.Agrees.call`), and
they give the same answers (`Heap.answers_eq`).
-/

namespace Parley

namespace Pending

variable {α : Type} {d e f : UInt64 × (Nat × α)}

/-! ## The order of turns -/

instance : DecidableRel (Before (α := α)) := fun d e =>
  inferInstanceAs (Decidable (d.1 < e.1 ∨ d.1 = e.1 ∧ d.2.1 < e.2.1))

theorem Before.asymm (h : Before d e) : ¬ Before e d := by
  unfold Before at h ⊢
  grind

theorem Before.not_trans (h : ¬ Before d e) (h' : ¬ Before e f) : ¬ Before d f := by
  unfold Before at h h' ⊢
  grind

end Pending

open Pending (Before InTurn drainEntries inTurn_empty perm_insertEntry plain)

/-- What waits, with stamps and numbers, and the number of the next item. -/
structure Heap (α : Type) where
  /-- In no particular order. -/
  entries : List (UInt64 × (Nat × α))
  next : Nat
  deriving DecidableEq, Repr

namespace Heap

variable {α : Type}

/-- Nothing has been put in. -/
def empty : Heap α := ⟨[], 0⟩

/-- Lets an item wait for a stamp. -/
def push (q : Heap α) (stamp : UInt64) (a : α) : Heap α := ⟨(stamp, (q.next, a)) :: q.entries, q.next + 1⟩

/-- The least of entries, and the others. -/
def least? : List (UInt64 × (Nat × α)) → Option ((UInt64 × (Nat × α)) × List (UInt64 × (Nat × α)))
  | [] => none
  | e :: es =>
    match least? es with
    | none => some (e, es)
    | some (d, rest) => if Before d e then some (d, e :: rest) else some (e, es)

theorem perm_of_least? {d : UInt64 × (Nat × α)} {es rest : List (UInt64 × (Nat × α))} (h : least? es = some (d, rest)) :
    (d :: rest).Perm es := by
  induction es generalizing d rest with
  | nil => contradiction
  | cons e es ih =>
    unfold least? at h
    split at h
    · obtain ⟨rfl, rfl⟩ := Prod.mk.inj (Option.some.inj h)
      exact .refl _
    · rename_i d' rest' hleast
      split at h <;> obtain ⟨rfl, rfl⟩ := Prod.mk.inj (Option.some.inj h)
      · exact (List.Perm.swap e d' rest').trans ((ih hleast).cons e)
      · exact .refl _

/-- Takes the least entries off one after the other, as long as a counter has reached them, and moves it on each time. -/
def drainFrom (now : UInt64) (es : List (UInt64 × (Nat × α))) : List (UInt64 × α) × List (UInt64 × (Nat × α)) × UInt64 :=
  match _h : least? es with
  | none => ([], es, now)
  | some (e, rest) =>
    if e.1 ≤ now then
      let (ready, rest, time) := drainFrom (Clock.next now) rest
      (plain e :: ready, rest, time)
    else ([], es, now)
termination_by es.length
decreasing_by exact (perm_of_least? _h).length_eq ▸ Nat.lt_succ_self _

/-- Takes off what the clock has reached, and moves the clock on. Nothing is taken off while the clock is not synced. -/
def drain (q : Heap α) (c : Clock) : List (UInt64 × α) × Heap α × Clock :=
  match c with
  | .unsynced => ([], q, .unsynced)
  | .synced now =>
    let (ready, rest, time) := drainFrom now q.entries
    (ready, { q with entries := rest }, .synced time)

/-- The smallest stamp that is waited for. -/
def nextStamp? (q : Heap α) : Option UInt64 := (least? q.entries).map fun (e, _) => e.1

/-- How many items wait. -/
def size (q : Heap α) : Nat := q.entries.length

/-- Nothing waits any more. The numbers go on. -/
def clear (q : Heap α) : Heap α := { q with entries := [] }

/-! ## The least entry -/

section Least

variable {d : UInt64 × (Nat × α)} {es rest sorted : List (UInt64 × (Nat × α))}

theorem least?_eq_none (h : least? es = none) : es = [] := by
  cases es with
  | nil => rfl
  | cons e es =>
    unfold least? at h
    split at h
    · contradiction
    · split at h <;> contradiction

/-- No entry is before the least one. -/
theorem not_before_of_least? (h : least? es = some (d, rest)) : ∀ e ∈ rest, ¬ Before e d := by
  induction es generalizing d rest with
  | nil => contradiction
  | cons e es ih =>
    unfold least? at h
    split at h
    · rename_i hnone
      obtain ⟨rfl, rfl⟩ := Prod.mk.inj (Option.some.inj h)
      simp [least?_eq_none hnone]
    · rename_i d' rest' hleast
      split at h <;> obtain ⟨rfl, rfl⟩ := Prod.mk.inj (Option.some.inj h)
      · rename_i hbefore
        exact List.forall_mem_cons.2 ⟨hbefore.asymm, ih hleast⟩
      · rename_i hbefore
        intro x hx
        rcases List.mem_cons.1 ((perm_of_least? hleast).mem_iff.2 hx) with rfl | hx
        · exact hbefore
        · exact Before.not_trans (ih hleast x hx) hbefore

/-- The least entry is the one whose turn is first. -/
theorem least?_of_perm (hs : (d :: sorted).Pairwise Before) (hp : (d :: sorted).Perm es) :
    ∃ rest, least? es = some (d, rest) ∧ sorted.Perm rest := by
  cases hleast : least? es with
  | none =>
    rw [least?_eq_none hleast] at hp
    exact absurd hp.length_eq (by simp)
  | some r =>
    obtain ⟨e, rest⟩ := r
    have hperm := hp.trans (perm_of_least? hleast).symm
    have he : e = d := by
      refine Classical.byContradiction fun hne => ?_
      have hmem := (List.mem_cons.1 (hperm.mem_iff.2 List.mem_cons_self)).resolve_left hne
      have hd := (List.mem_cons.1 (hperm.mem_iff.1 List.mem_cons_self)).resolve_left (Ne.symm hne)
      exact not_before_of_least? hleast d hd ((List.pairwise_cons.1 hs).1 e hmem)
    subst he
    exact ⟨rest, rfl, hperm.cons_inv⟩

end Least

/-! ## A heap and a queue -/

/-- What a heap takes off is what a queue with the same entries takes off. -/
theorem drainFrom_of_perm {sorted : List (UInt64 × (Nat × α))} (hs : sorted.Pairwise Before) (now : UInt64)
    {es : List (UInt64 × (Nat × α))} (hp : sorted.Perm es) :
    (drainFrom now es).1 = (drainEntries now sorted).1.map plain ∧
      (drainEntries now sorted).2.1.Perm (drainFrom now es).2.1 ∧ (drainFrom now es).2.2 = (drainEntries now sorted).2.2 := by
  induction sorted generalizing now es with
  | nil =>
    obtain rfl := hp.nil_eq
    unfold drainFrom
    exact ⟨rfl, .refl _, rfl⟩
  | cons d sorted ih =>
    obtain ⟨rest, hleast, hrest⟩ := least?_of_perm hs hp
    obtain ⟨hready, hleft, htime⟩ := ih (List.pairwise_cons.1 hs).2 (Clock.next now) hrest
    unfold drainFrom drainEntries
    split
    · simp_all
    · rename_i e rest' hleast'
      obtain ⟨rfl, rfl⟩ := Prod.mk.inj (Option.some.inj (hleast.symm.trans hleast'))
      split
      · exact ⟨congrArg _ hready, hleft, htime⟩
      · exact ⟨rfl, hp, rfl⟩

/-- The same waits in a heap and in a queue. In the queue it stands in the order of its turns. -/
def Agrees (q : Heap α) (p : Pending α) : Prop :=
  ∃ r : Pending (Nat × α), InTurn q.next r ∧ r.entries.Perm q.entries ∧ p = r.unnumbered

variable {q : Heap α} {p : Pending α}

theorem agrees_empty : Agrees (empty : Heap α) .empty := ⟨.empty, inTurn_empty, .refl [], rfl⟩

theorem Agrees.push (h : Agrees q p) (stamp : UInt64) (a : α) : Agrees (q.push stamp a) (p.push stamp a) := by
  obtain ⟨r, hturn, hperm, rfl⟩ := h
  refine ⟨r.push stamp (q.next, a), hturn.push stamp a, ?_, r.unnumbered_push stamp (q.next, a)⟩
  exact (perm_insertEntry stamp (q.next, a) r.entries).trans ((List.perm_append_singleton ..).trans (hperm.cons _))

theorem Agrees.clear (q : Heap α) : Agrees q.clear .empty := ⟨.empty, ⟨.nil, nofun⟩, .refl [], rfl⟩

theorem Agrees.drain (h : Agrees q p) (c : Clock) :
    (q.drain c).1 = (p.drain c).1 ∧ Agrees (q.drain c).2.1 (p.drain c).2.1 ∧ (q.drain c).2.2 = (p.drain c).2.2 := by
  obtain ⟨r, hturn, hperm, rfl⟩ := h
  rw [r.unnumbered_drain]
  cases c with
  | unsynced => exact ⟨rfl, ⟨r, hturn, hperm, rfl⟩, rfl⟩
  | synced now =>
    obtain ⟨hready, hleft, htime⟩ := drainFrom_of_perm hturn.order now hperm
    exact ⟨hready, ⟨_, hturn.drain (.synced now), hleft, rfl⟩, congrArg Clock.synced htime⟩

theorem Agrees.size_eq (h : Agrees q p) : q.size = p.size := by
  obtain ⟨r, -, hperm, rfl⟩ := h
  exact hperm.length_eq.symm.trans (List.length_map ..).symm

theorem Agrees.nextStamp?_eq (h : Agrees q p) : q.nextStamp? = p.nextStamp? := by
  obtain ⟨⟨es⟩, hturn, hperm, rfl⟩ := h
  cases es with
  | nil =>
    rw [nextStamp?, ← hperm.nil_eq]
    rfl
  | cons d es =>
    obtain ⟨rest, hleast, -⟩ := least?_of_perm hturn.order hperm
    rw [nextStamp?, hleast]
    rfl

/-! ## Using both -/

/-- What is done with a heap or a queue. -/
inductive Call (α : Type) where
  /-- An item is put in with a stamp. -/
  | push (stamp : UInt64) (a : α)
  /-- What a clock has reached is taken off. -/
  | drain (c : Clock)
  /-- Everything is thrown away. -/
  | clear

/-- What is seen of a call: what is taken off, where the clock is then, how many items wait, and for which stamp. -/
structure Answer (α : Type) where
  ready : List (UInt64 × α)
  clock : Option Clock
  size : Nat
  nextStamp? : Option UInt64
  deriving DecidableEq, Repr

/-- A heap after a call, and the answer. -/
def call (q : Heap α) : Call α → Heap α × Answer α
  | .push stamp a => let q := q.push stamp a; (q, ⟨[], none, q.size, q.nextStamp?⟩)
  | .drain c => let (ready, q, c) := q.drain c; (q, ⟨ready, some c, q.size, q.nextStamp?⟩)
  | .clear => let q := q.clear; (q, ⟨[], none, q.size, q.nextStamp?⟩)

/-- A queue after a call, and the answer. -/
def callQueue (p : Pending α) : Call α → Pending α × Answer α
  | .push stamp a => let p := p.push stamp a; (p, ⟨[], none, p.size, p.nextStamp?⟩)
  | .drain c => let (ready, p, c) := p.drain c; (p, ⟨ready, some c, p.size, p.nextStamp?⟩)
  | .clear => (.empty, ⟨[], none, 0, none⟩)

/-- The answers to calls, one after the other. -/
def answers {σ : Type} (call : σ → Call α → σ × Answer α) (s : σ) : List (Call α) → List (Answer α)
  | [] => []
  | c :: cs => (call s c).2 :: answers call (call s c).1 cs

theorem Agrees.call (h : Agrees q p) (c : Call α) :
    Agrees (q.call c).1 (callQueue p c).1 ∧ (q.call c).2 = (callQueue p c).2 := by
  cases c with
  | push stamp a =>
    have hpush := h.push stamp a
    exact ⟨hpush, by simp only [Heap.call, callQueue, hpush.size_eq, hpush.nextStamp?_eq]⟩
  | drain c =>
    obtain ⟨hready, hdrain, hclock⟩ := h.drain c
    exact ⟨hdrain, by simp only [Heap.call, callQueue, hdrain.size_eq, hdrain.nextStamp?_eq, hready, hclock]⟩
  | clear => exact ⟨.clear q, rfl⟩

/-- **A heap that counts and a queue without numbers cannot be told apart**: they give the same answers to the same calls. -/
theorem answers_eq (calls : List (Call α)) : answers Heap.call empty calls = answers callQueue .empty calls := by
  suffices h : ∀ (q : Heap α) (p : Pending α), Agrees q p → answers Heap.call q calls = answers callQueue p calls from
    h _ _ agrees_empty
  induction calls with
  | nil => exact fun _ _ _ => rfl
  | cons c cs ih =>
    intro q p h
    obtain ⟨hnext, hanswer⟩ := h.call c
    rw [answers, answers, hanswer, ih _ _ hnext]

end Heap
end Parley

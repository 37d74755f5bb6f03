import Mathlib.Data.List.Induction
import Mathlib.Data.List.Nodup
import Mathlib.Tactic.Common
import Parley.Proofs.Pending

/-!
# Stamps in any order

A `Reception` is a clock that meets items with stamps, one by one: an item is taken up or waits, and now and then what waits
is looked at. If all stamps are different and the clock is behind none of them, the clock takes the items up in the order of
their stamps, without a gap: it stops at the first stamp that is missing, and what waits has larger ones
(`taken_up_to_gap`).

`Kept` says where a reception stands at any moment: the items taken up have the stamps from the first time of the clock to
its present one, and what waits is not behind the clock.
-/

namespace Parley

/-- A clock, the items that wait for it, and those that have been taken up, in order. -/
structure Reception (α : Type) where
  clock : Clock
  pending : Pending α
  taken : List (UInt64 × α)

namespace Reception

variable {α : Type}

/-- Nothing has arrived yet. -/
def start (t : UInt64) : Reception α := ⟨.synced t, .empty, []⟩

/-- An item with a stamp arrives: it is taken up or waits. -/
def arrive (r : Reception α) (e : UInt64 × α) : Reception α :=
  match r.clock.observe e.1 with
  | (.deliver, clock) => { r with clock, taken := r.taken ++ [e] }
  | (.defer, clock) => { r with clock, pending := r.pending.push e.1 e.2 }

/-- What the clock has reached is taken up. -/
def drain (r : Reception α) : Reception α :=
  let (ready, pending, clock) := r.pending.drain r.clock
  ⟨clock, pending, r.taken ++ ready⟩

/-- What can happen to a reception. -/
inductive Occasion (α : Type) where
  /-- An item with a stamp arrives. -/
  | arrival (e : UInt64 × α)
  /-- What waits is looked at. -/
  | look

/-- The reception after something has happened. -/
def after (r : Reception α) : Occasion α → Reception α
  | .arrival e => r.arrive e
  | .look => r.drain

/-- The reception after several things have happened. -/
def run (r : Reception α) (xs : List (Occasion α)) : Reception α := xs.foldl after r

/-- The items that arrive. -/
def arrivals (xs : List (Occasion α)) : List (UInt64 × α) :=
  xs.filterMap fun
    | .arrival e => some e
    | .look => none

/-! ## Looking at what waits -/

/-- The next stamp of one that is not the largest. -/
theorem toNat_next_of_lt {t : UInt64} (h : t < Clock.maxTime) : (Clock.next t).toNat = t.toNat + 1 := by
  have hm : Clock.maxTime.toNat = UInt64.size - 1 := rfl
  have hlt := UInt64.lt_iff_toNat_lt.1 h
  rw [Clock.toNat_next]
  omega

/-- If all stamps are different and none is behind the clock, looking takes up those without a gap, and the others are ahead
of the clock. -/
theorem drainEntries_of_ahead {now : UInt64} {es : List (UInt64 × α)} (hs : Pending.Sorted es)
    (hd : (es.map Prod.fst).Nodup) (ha : ∀ e ∈ es, now ≤ e.1) (hm : ∀ e ∈ es, e.1 < Clock.maxTime) :
    (Pending.drainEntries now es).1.map (·.1.toNat) = List.range' now.toNat (Pending.drainEntries now es).1.length ∧
      (Pending.drainEntries now es).2.2.toNat = now.toNat + (Pending.drainEntries now es).1.length ∧
      ∀ e ∈ (Pending.drainEntries now es).2.1, (Pending.drainEntries now es).2.2 < e.1 := by
  induction es generalizing now with
  | nil => exact ⟨rfl, rfl, by simp [Pending.drainEntries]⟩
  | cons e es ih =>
    obtain ⟨hle, hs⟩ := List.pairwise_cons.1 hs
    rw [List.map_cons, List.nodup_cons] at hd
    by_cases he : e.1 ≤ now
    · -- the first entry has the stamp that the clock shows, and no other one has it
      have hnow : e.1 = now := UInt64.le_antisymm he (ha e List.mem_cons_self)
      have hnext : (Clock.next now).toNat = now.toNat + 1 :=
        toNat_next_of_lt (hnow ▸ hm e List.mem_cons_self)
      have hahead : ∀ d ∈ es, Clock.next now ≤ d.1 := by
        intro d hd'
        have hne : e.1 ≠ d.1 := fun h => hd.1 (h ▸ List.mem_map_of_mem hd')
        have hlt := UInt64.lt_iff_toNat_lt.1 (UInt64.lt_of_le_of_ne (hle d hd') hne)
        rw [UInt64.le_iff_toNat_le, hnext]
        rw [hnow] at hlt
        omega
      obtain ⟨h₁, h₂, h₃⟩ := ih hs hd.2 hahead fun d hd' => hm d (List.mem_cons_of_mem e hd')
      simp only [Pending.drainEntries, he, ↓reduceIte, List.map_cons, List.length_cons, List.range'_succ]
      refine ⟨?_, h₂.trans (by omega), h₃⟩
      rw [h₁, hnext, hnow]
    · rw [UInt64.not_le] at he
      simp only [Pending.drainEntries, UInt64.not_le.2 he, ↓reduceIte]
      refine ⟨rfl, rfl, fun d hd' => ?_⟩
      rcases List.mem_cons.1 hd' with rfl | hd'
      · exact he
      · exact UInt64.lt_of_lt_of_le he (hle d hd')

/-! ## Where a reception stands -/

/-- Where a reception stands that began at `t`, after the items `arrived`, when its clock shows `now`. -/
structure Kept (t : UInt64) (arrived : List (UInt64 × α)) (r : Reception α) (now : UInt64) : Prop where
  clock : r.clock = .synced now
  le : t ≤ now
  taken : r.taken.map (·.1.toNat) = List.range' t.toNat (now.toNat - t.toNat)
  sorted : Pending.Sorted r.pending.entries
  ahead : ∀ e ∈ r.pending.entries, now ≤ e.1
  all : (r.taken ++ r.pending.entries).Perm arrived

variable {t now : UInt64} {arrived : List (UInt64 × α)} {r : Reception α}

theorem kept_start (t : UInt64) : Kept t [] (start t : Reception α) t :=
  ⟨rfl, UInt64.le_refl t, by simp [start], List.Pairwise.nil, by simp [start, Pending.empty], List.Perm.refl _⟩

/-- The stamps between the first time of the clock and its present one have been taken up. -/
theorem Kept.exists_taken (k : Kept t arrived r now) {s : UInt64} (h₁ : t ≤ s) (h₂ : s < now) :
    ∃ e ∈ r.taken, e.1 = s := by
  have hmem : s.toNat ∈ r.taken.map (·.1.toNat) := by
    have := UInt64.le_iff_toNat_le.1 h₁
    have := UInt64.lt_iff_toNat_lt.1 h₂
    rw [k.taken, List.mem_range'_1]
    omega
  obtain ⟨e, he, hs⟩ := List.mem_map.1 hmem
  exact ⟨e, he, UInt64.toNat_inj.1 hs⟩

theorem Kept.lt_of_mem_taken (k : Kept t arrived r now) {e : UInt64 × α} (h : e ∈ r.taken) : e.1 < now := by
  have hmem : e.1.toNat ∈ r.taken.map (·.1.toNat) := List.mem_map_of_mem h
  have := UInt64.le_iff_toNat_le.1 k.le
  rw [k.taken, List.mem_range'_1] at hmem
  rw [UInt64.lt_iff_toNat_lt]
  omega

/-- An item with a new stamp arrives. -/
theorem Kept.arrive (k : Kept t arrived r now) {e : UInt64 × α} (hn : ∀ d ∈ arrived, d.1 ≠ e.1) (ht : t ≤ e.1)
    (hm : e.1 < Clock.maxTime) : ∃ now', Kept t (arrived ++ [e]) (r.arrive e) now' := by
  have hle : now ≤ e.1 := by
    by_contra h
    obtain ⟨d, hd, hs⟩ := k.exists_taken ht (UInt64.not_le.1 h)
    exact hn d (k.all.subset (List.mem_append_left _ hd)) hs
  by_cases he : now < e.1
  · -- it waits
    have hadded := Pending.perm_insertEntry e.1 e.2 r.pending.entries
    have hr : r.arrive e = { r with pending := r.pending.push e.1 e.2 } := by
      simp [Reception.arrive, Clock.observe, Clock.time?, k.clock, he]
    refine ⟨now, ?_⟩
    rw [hr]
    refine ⟨k.clock, k.le, k.taken, k.sorted.insertEntry _ _, ?_, ?_⟩
    · intro d hd
      rcases List.mem_append.1 (hadded.subset hd) with hd | hd
      · exact k.ahead d hd
      · exact List.mem_singleton.1 hd ▸ hle
    · refine List.Perm.trans ?_ (k.all.append_right [e])
      rw [List.append_assoc]
      exact hadded.append_left r.taken
  · -- the clock shows its stamp, which nothing that waits has
    have hnow : e.1 = now := UInt64.le_antisymm (UInt64.not_lt.1 he) hle
    have hnext : (Clock.next now).toNat = now.toNat + 1 := toNat_next_of_lt (hnow ▸ hm)
    have htn := UInt64.le_iff_toNat_le.1 k.le
    have hr : r.arrive e = { r with clock := .synced (Clock.next now), taken := r.taken ++ [e] } := by
      simp [Reception.arrive, Clock.observe, Clock.time?, k.clock, hnow]
    refine ⟨Clock.next now, ?_⟩
    rw [hr]
    refine ⟨rfl, ?_, ?_, k.sorted, ?_, ?_⟩
    · rw [UInt64.le_iff_toNat_le, hnext]
      omega
    · rw [List.map_append, k.taken, hnext, Nat.succ_sub htn, List.range'_concat, Nat.one_mul, Nat.add_sub_cancel' htn,
        List.map_singleton, hnow]
    · intro d hd
      have hne : d.1 ≠ now := hnow ▸ hn d (k.all.subset (List.mem_append_right _ hd))
      have hlt := UInt64.lt_iff_toNat_lt.1 (UInt64.lt_of_le_of_ne (k.ahead d hd) (Ne.symm hne))
      rw [UInt64.le_iff_toNat_le, hnext]
      omega
    · refine List.Perm.trans ?_ (k.all.append_right [e])
      rw [List.append_assoc, List.append_assoc]
      exact (List.perm_append_singleton e r.pending.entries).symm.append_left r.taken

/-- Looking at what waits leaves only what is ahead of the clock. -/
theorem Kept.drain (k : Kept t arrived r now) (hd : (arrived.map Prod.fst).Nodup)
    (hm : ∀ e ∈ arrived, e.1 < Clock.maxTime) :
    ∃ now', Kept t arrived r.drain now' ∧ ∀ e ∈ r.drain.pending.entries, now' < e.1 := by
  have hnd : (r.pending.entries.map Prod.fst).Nodup := by
    have h := (k.all.map Prod.fst).nodup_iff.2 hd
    rw [List.map_append] at h
    exact (List.nodup_append.1 h).2.1
  obtain ⟨hready, htime, hrest⟩ := drainEntries_of_ahead k.sorted hnd k.ahead
    fun e he => hm e (k.all.subset (List.mem_append_right _ he))
  have happ := Pending.drainEntries_append now r.pending.entries
  have hr : r.drain = ⟨.synced (Pending.drainEntries now r.pending.entries).2.2,
      ⟨(Pending.drainEntries now r.pending.entries).2.1⟩,
      r.taken ++ (Pending.drainEntries now r.pending.entries).1⟩ := by
    simp [Reception.drain, Pending.drain, k.clock]
  have htn := UInt64.le_iff_toNat_le.1 k.le
  rw [hr]
  refine ⟨_, ⟨rfl, ?_, ?_, ?_, fun e he => UInt64.le_of_lt (hrest e he), ?_⟩, hrest⟩
  · rw [UInt64.le_iff_toNat_le, htime]
    omega
  · rw [List.map_append, k.taken, hready, htime, Nat.sub_add_comm htn, ← List.range'_append_1]
    congr 2
    omega
  · have hs := k.sorted
    rw [← happ] at hs
    exact (List.pairwise_append.1 hs).2.1
  · rw [List.append_assoc, happ]
    exact k.all

/-! ## Runs -/

theorem run_append (r : Reception α) (xs ys : List (Occasion α)) : r.run (xs ++ ys) = (r.run xs).run ys :=
  List.foldl_append

theorem arrivals_append (xs ys : List (Occasion α)) : arrivals (xs ++ ys) = arrivals xs ++ arrivals ys :=
  List.filterMap_append

theorem exists_kept_run (t : UInt64) {xs : List (Occasion α)} (hd : ((arrivals xs).map Prod.fst).Nodup)
    (hr : ∀ e ∈ arrivals xs, t ≤ e.1 ∧ e.1 < Clock.maxTime) : ∃ now, Kept t (arrivals xs) ((start t).run xs) now := by
  induction xs using List.reverseRecOn with
  | nil => exact ⟨t, kept_start t⟩
  | append_singleton xs x ih =>
    rw [arrivals_append] at hd hr ⊢
    rw [List.map_append, List.nodup_append] at hd
    obtain ⟨now, k⟩ := ih hd.1 fun e he => hr e (List.mem_append_left _ he)
    rw [run_append]
    cases x with
    | arrival e =>
      obtain ⟨ht, hm⟩ := hr e (by simp [arrivals])
      exact k.arrive (fun d h => hd.2.2 _ (List.mem_map_of_mem h) _ (by simp [arrivals])) ht hm
    | look =>
      obtain ⟨now', k', -⟩ := k.drain hd.1 fun e he => (hr e (List.mem_append_left _ he)).2
      exact ⟨now', (List.append_nil (arrivals xs)).symm ▸ k'⟩

/-- **Stamps are taken up in order, up to the first gap.** When items with different stamps have arrived, in any order, and
what waits is looked at last, the items taken up have the stamps from the first time of the clock up to the first stamp
that is missing, in order; those with larger stamps wait, and the clock shows the missing one. -/
theorem taken_up_to_gap (t : UInt64) (xs : List (Occasion α)) (hd : ((arrivals xs).map Prod.fst).Nodup)
    (hr : ∀ e ∈ arrivals xs, t ≤ e.1 ∧ e.1 < Clock.maxTime) :
    ∃ g, (t ≤ g ∧ g ∉ (arrivals xs).map Prod.fst ∧ ∀ s, t ≤ s → s < g → s ∈ (arrivals xs).map Prod.fst) ∧
      ((start t).run xs).drain.taken.map (·.1.toNat) = List.range' t.toNat (g.toNat - t.toNat) ∧
      ((start t).run xs).drain.pending.entries.Perm ((arrivals xs).filter fun e => g < e.1) ∧
      (((start t).run xs).drain.taken ++ ((start t).run xs).drain.pending.entries).Perm (arrivals xs) ∧
      ((start t).run xs).drain.clock = .synced g := by
  obtain ⟨now, k⟩ := exists_kept_run t hd hr
  obtain ⟨g, k', hahead⟩ := k.drain hd fun e he => (hr e he).2
  refine ⟨g, ⟨k'.le, ?_, ?_⟩, k'.taken, ?_, k'.all, k'.clock⟩
  · intro hg
    obtain ⟨e, he, rfl⟩ := List.mem_map.1 hg
    rcases List.mem_append.1 (k'.all.mem_iff.2 he) with h | h
    · exact UInt64.lt_irrefl _ (k'.lt_of_mem_taken h)
    · exact UInt64.lt_irrefl _ (hahead e h)
  · intro s h₁ h₂
    obtain ⟨e, he, rfl⟩ := k'.exists_taken h₁ h₂
    exact List.mem_map_of_mem (k'.all.subset (List.mem_append_left _ he))
  · have htaken : ((start t).run xs).drain.taken.filter (fun e => g < e.1) = [] := by
      rw [List.filter_eq_nil_iff]
      intro e he hlt
      exact UInt64.lt_asymm (k'.lt_of_mem_taken he) (of_decide_eq_true hlt)
    have hwait : ((start t).run xs).drain.pending.entries.filter (fun e => g < e.1) =
        ((start t).run xs).drain.pending.entries :=
      List.filter_eq_self.2 fun e he => decide_eq_true (hahead e he)
    have hp := k'.all.filter fun e => g < e.1
    rwa [List.filter_append, htaken, hwait, List.nil_append] at hp

/-- Five lines arrive with the first one last, and the line between them and the fifth is missing. -/
theorem taken_up_to_gap_backwards :
    let xs : List (Occasion String) := [.arrival (7, "d"), .arrival (5, "c"), .look, .arrival (8, "e"), .arrival (4, "b"),
      .arrival (3, "a")]
    ((start 3).run xs).drain.clock = .synced 6 ∧
      ((start 3).run xs).drain.taken.map (·.1.toNat) = [3, 4, 5] ∧
      ((start 3).run xs).drain.pending.entries.Perm [(7, "d"), (8, "e")] := by
  intro xs
  obtain ⟨g, -, htaken, hwait, -, hclock⟩ := taken_up_to_gap 3 xs (by decide) (by decide)
  have hg : ((start 3).run xs).drain.clock = .synced 6 := by decide
  obtain rfl : g = 6 := Clock.synced.inj (hclock.symm.trans hg)
  exact ⟨hg, htaken, hwait⟩

end Reception
end Parley

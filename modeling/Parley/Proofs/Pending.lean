import Parley.Pending

/-!
# The order of lines that wait

What waits is sorted by stamp (`Sorted`), and stays so when something is put in or taken off (`Sorted.insertEntry`). Draining
takes off a beginning of the queue (`drainEntries_append`), moves the clock on once for each entry taken off
(`toNat_drainEntries`), and stops only at an entry ahead of the clock (`lt_of_mem_head`). So if nothing can be taken off,
every entry is ahead of the clock (`Sorted.lt_of_stuck`).
-/

namespace Parley.Pending

variable {α : Type}

/-- Smaller stamps come first. -/
def Sorted (es : List (UInt64 × α)) : Prop := es.Pairwise fun d e => d.1 ≤ e.1

/-! ## Putting in -/

/-- An entry goes between those of the same or a smaller stamp and those of larger ones. -/
theorem insertEntry_split (stamp : UInt64) (a : α) {es : List (UInt64 × α)} (h : Sorted es) :
    ∃ before after, es = before ++ after ∧ insertEntry stamp a es = before ++ (stamp, a) :: after ∧
      (∀ e ∈ before, e.1 ≤ stamp) ∧ ∀ e ∈ after, stamp < e.1 := by
  induction es with
  | nil => exact ⟨[], [], rfl, rfl, by simp, by simp⟩
  | cons e es ih =>
    obtain ⟨hle, hs⟩ := List.pairwise_cons.1 h
    by_cases hlt : stamp < e.1
    · refine ⟨[], e :: es, rfl, by simp [insertEntry, hlt], by simp, ?_⟩
      intro d hd
      rcases List.mem_cons.1 hd with rfl | hd
      · exact hlt
      · exact UInt64.lt_of_lt_of_le hlt (hle d hd)
    · obtain ⟨before, after, rfl, hi, hb, ha⟩ := ih hs
      refine ⟨e :: before, after, rfl, by simp [insertEntry, hlt, hi], ?_, ha⟩
      intro d hd
      rcases List.mem_cons.1 hd with rfl | hd
      · exact UInt64.not_lt.1 hlt
      · exact hb d hd

/-- Putting an entry in adds it to the others. -/
theorem perm_insertEntry (stamp : UInt64) (a : α) (es : List (UInt64 × α)) :
    (insertEntry stamp a es).Perm (es ++ [(stamp, a)]) := by
  induction es with
  | nil => exact .refl _
  | cons e es ih =>
    unfold insertEntry
    split
    · exact (List.perm_append_singleton (stamp, a) (e :: es)).symm
    · exact ih.cons e

/-- Putting something in keeps the order. -/
theorem Sorted.insertEntry {es : List (UInt64 × α)} (h : Sorted es) (stamp : UInt64) (a : α) :
    Sorted (insertEntry stamp a es) := by
  obtain ⟨before, after, rfl, hi, hb, ha⟩ := insertEntry_split stamp a h
  obtain ⟨h₁, h₂, h₃⟩ := List.pairwise_append.1 h
  rw [hi]
  refine List.pairwise_append.2 ⟨h₁, List.pairwise_cons.2 ⟨fun e he => UInt64.le_of_lt (ha e he), h₂⟩, ?_⟩
  intro d hd e he
  rcases List.mem_cons.1 he with rfl | he
  · exact hb d hd
  · exact h₃ d hd e he

/-! ## Taking off -/

/-- A beginning is taken off, and the rest stays. -/
theorem drainEntries_append (now : UInt64) (es : List (UInt64 × α)) :
    (drainEntries now es).1 ++ (drainEntries now es).2.1 = es := by
  induction es generalizing now with
  | nil => rfl
  | cons e es ih =>
    unfold drainEntries
    split
    · exact congrArg (e :: ·) (ih _)
    · rfl

theorem take_drainEntries (now : UInt64) (es : List (UInt64 × α)) :
    es.take (drainEntries now es).1.length = (drainEntries now es).1 := by
  have happ := drainEntries_append now es
  generalize drainEntries now es = r at happ ⊢
  rw [← happ, List.take_left]

theorem drop_drainEntries (now : UInt64) (es : List (UInt64 × α)) :
    es.drop (drainEntries now es).1.length = (drainEntries now es).2.1 := by
  have happ := drainEntries_append now es
  generalize drainEntries now es = r at happ ⊢
  rw [← happ, List.drop_left]

/-- The clock moves on once for each entry that is taken off, up to the largest stamp. -/
theorem toNat_drainEntries (now : UInt64) (es : List (UInt64 × α)) :
    (drainEntries now es).2.2.toNat = min (now.toNat + (drainEntries now es).1.length) (UInt64.size - 1) := by
  induction es generalizing now with
  | nil =>
    have := now.toNat_lt_size
    simp only [drainEntries, List.length_nil]
    omega
  | cons e es ih =>
    unfold drainEntries
    split
    · simp only [List.length_cons, ih, Clock.toNat_next]
      omega
    · have := now.toNat_lt_size
      simp only [List.length_nil]
      omega

/-- Nothing is taken off if the first entry is ahead of the clock. -/
theorem drainEntries_of_ahead_head {now : UInt64} {es : List (UInt64 × α)} (h : ∀ e ∈ es.head?, now < e.1) :
    drainEntries now es = ([], es, now) := by
  cases es with
  | nil => rfl
  | cons e es =>
    have hlt : now < e.1 := h e rfl
    rw [drainEntries, if_neg (UInt64.not_le.2 hlt)]

/-- An entry that is taken off is behind a clock that has been moved on for all of them. -/
theorem lt_of_mem_drainEntries {now : UInt64} {es : List (UInt64 × α)} {e : UInt64 × α}
    (h : e ∈ (drainEntries now es).1) : e.1.toNat < now.toNat + (drainEntries now es).1.length := by
  induction es generalizing now with
  | nil => simp [drainEntries] at h
  | cons d es ih =>
    unfold drainEntries at h ⊢
    split at h
    · rename_i hle
      simp only [hle, ↓reduceIte, List.length_cons] at h ⊢
      rcases List.mem_cons.1 h with rfl | h
      · have := UInt64.le_iff_toNat_le.1 hle
        omega
      · have hlt := ih h
        rw [Clock.toNat_next] at hlt
        omega
    · simp at h

/-- Draining stops only at an entry that is ahead of the clock. -/
theorem lt_of_mem_head {now : UInt64} {es : List (UInt64 × α)} {e : UInt64 × α}
    (h : e ∈ (drainEntries now es).2.1.head?) : (drainEntries now es).2.2 < e.1 := by
  induction es generalizing now with
  | nil => simp [drainEntries] at h
  | cons d es ih =>
    unfold drainEntries at h ⊢
    split at h
    · rename_i hle
      simp only [hle, ↓reduceIte] at h ⊢
      exact ih h
    · rename_i hle
      simp only [hle, ↓reduceIte, List.head?_cons, Option.mem_some_iff] at h ⊢
      exact h ▸ UInt64.not_le.1 hle

/-- If nothing can be taken off, everything that waits is ahead of the clock. -/
theorem Sorted.lt_of_stuck {now : UInt64} {es : List (UInt64 × α)} (hs : Sorted es)
    (h : (drainEntries now es).1 = []) {e : UInt64 × α} (he : e ∈ es) : now < e.1 := by
  have hrest : (drainEntries now es).2.1 = es := by
    have happ := drainEntries_append now es
    rwa [h, List.nil_append] at happ
  have htime : (drainEntries now es).2.2 = now := by
    have hle := now.toNat_lt_size
    have ht := toNat_drainEntries now es
    rw [h, List.length_nil] at ht
    exact UInt64.toNat_inj.1 (by omega)
  have hhead : ∀ d ∈ es.head?, now < d.1 := fun d hd => by
    rw [← hrest] at hd
    exact htime ▸ lt_of_mem_head hd
  cases es with
  | nil => cases he
  | cons d es =>
    have hlt := hhead d (by simp)
    rcases List.mem_cons.1 he with rfl | he
    · exact hlt
    · exact UInt64.lt_of_lt_of_le hlt ((List.pairwise_cons.1 hs).1 e he)

end Parley.Pending

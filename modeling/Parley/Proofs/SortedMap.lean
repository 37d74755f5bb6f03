import Parley.SortedMap

/-!
# Sorted maps

A map that is built by insertions has its keys in increasing order, each once (`Sorted.insert`). The values are then those
that looking the keys up gives, one after the other (`Sorted.values_eq`).
-/

namespace Parley.SortedMap

variable {κ α : Type}

/-- The keys are in increasing order. -/
def Sorted [LT κ] (m : SortedMap κ α) : Prop := m.keys.Pairwise (· < ·)

theorem sorted_empty [LT κ] : (empty : SortedMap κ α).Sorted := List.Pairwise.nil

/-- No key is there twice. -/
theorem Sorted.nodup [LT κ] [Std.Irrefl (fun a b : κ => a < b)] {m : SortedMap κ α} (h : m.Sorted) : m.keys.Nodup := by
  refine List.Pairwise.imp (fun {j k} hlt => ?_) h
  rintro rfl
  exact Std.Irrefl.irrefl j hlt

variable [DecidableEq κ]

theorem get?_empty (k : κ) : (empty : SortedMap κ α).get? k = none := rfl

/-- A key has a value if it is among the keys. -/
theorem mem_keys_iff (m : SortedMap κ α) (k : κ) : k ∈ m.keys ↔ (m.get? k).isSome = true := by
  simp [keys, get?]

theorem notMem_keys_iff (m : SortedMap κ α) (k : κ) : k ∉ m.keys ↔ m.get? k = none := by
  rw [mem_keys_iff, Bool.not_eq_true, Option.isSome_eq_false_iff, Option.isNone_iff_eq_none]

theorem get?_of_mem [LT κ] [Std.Irrefl (fun a b : κ => a < b)] {m : SortedMap κ α} (h : m.Sorted) {e : κ × α}
    (he : e ∈ m.entries) : m.get? e.1 = some e.2 := by
  obtain ⟨es⟩ := m
  unfold Sorted keys at h
  unfold get?
  dsimp only at h he ⊢
  induction es with
  | nil => simp at he
  | cons f es ih =>
    rw [List.map_cons, List.pairwise_cons] at h
    by_cases hk : f.1 = e.1
    · rw [List.find?_cons_of_pos (by simpa using hk), Option.map_some]
      rcases List.mem_cons.1 he with rfl | hmem
      · rfl
      · have hlt := h.1 e.1 (List.mem_map_of_mem hmem)
        rw [hk] at hlt
        exact absurd hlt (Std.Irrefl.irrefl e.1)
    · have hmem : e ∈ es := (List.mem_cons.1 he).resolve_left fun heq => hk (by rw [heq])
      rw [List.find?_cons_of_neg (by simpa using hk)]
      exact ih h.2 hmem

/-- The entries are what is found. -/
theorem Sorted.mem_entries_iff [LT κ] [Std.Irrefl (fun a b : κ => a < b)] {m : SortedMap κ α} (h : m.Sorted) {k : κ}
    {a : α} : (k, a) ∈ m.entries ↔ m.get? k = some a := by
  constructor
  · exact get?_of_mem h
  · intro hget
    obtain ⟨⟨j, b⟩, hmem, rfl⟩ := Option.map_eq_some_iff.1 hget
    have hj : j = k := by simpa using List.find?_some hmem
    exact hj ▸ List.mem_of_find?_eq_some hmem

/-- Each key is found with the value at its place. -/
theorem Sorted.map_get?_keys [LT κ] [Std.Irrefl (fun a b : κ => a < b)] {m : SortedMap κ α} (h : m.Sorted) :
    m.keys.map m.get? = m.values.map some := by
  rw [keys, values, List.map_map, List.map_map]
  exact List.map_congr_left fun e he => get?_of_mem h he

/-- The values are what looking the keys up gives. -/
theorem Sorted.values_eq [LT κ] [Std.Irrefl (fun a b : κ => a < b)] {m : SortedMap κ α} (h : m.Sorted) :
    m.values = m.keys.filterMap m.get? :=
  calc m.values = (m.values.map some).filterMap id := by rw [List.filterMap_map, Function.id_comp, List.filterMap_some]
    _ = (m.keys.map m.get?).filterMap id := by rw [h.map_get?_keys]
    _ = m.keys.filterMap m.get? := by rw [List.filterMap_map, Function.id_comp]

/-! ## Removals -/

theorem mem_keys_erase (m : SortedMap κ α) (k j : κ) : j ∈ (m.erase k).keys ↔ j ≠ k ∧ j ∈ m.keys := by
  rw [mem_keys_iff, mem_keys_iff]
  by_cases h : j = k
  · simp [h, get?_erase_self]
  · simp [h, get?_erase_of_ne]

/-- Removing a key that has no value changes nothing. -/
theorem erase_of_notMem {m : SortedMap κ α} {k : κ} (h : k ∉ m.keys) : m.erase k = m := by
  obtain ⟨es⟩ := m
  refine congrArg mk (List.filter_eq_self.2 fun e he => decide_eq_true ?_)
  rintro rfl
  exact h (List.mem_map_of_mem he)

/-- A removal gives no key a value. -/
theorem get?_erase_eq_none {m : SortedMap κ α} {j : κ} (h : m.get? j = none) (k : κ) : (m.erase k).get? j = none := by
  by_cases hj : j = k
  · rw [hj, get?_erase_self]
  · rw [get?_erase_of_ne _ hj, h]

/-- A removal makes no key come twice. -/
theorem nodup_keys_erase {m : SortedMap κ α} (h : m.keys.Nodup) (k : κ) : (m.erase k).keys.Nodup :=
  h.sublist (List.filter_sublist.map Prod.fst)

/-- A removal keeps the keys in order. -/
theorem Sorted.erase [LT κ] {m : SortedMap κ α} (h : m.Sorted) (k : κ) : (m.erase k).Sorted :=
  h.sublist (List.filter_sublist.map Prod.fst)

/-! ## Insertions -/

section Insert

variable [LT κ] [DecidableLT κ]

theorem mem_keys_insertEntry {k j : κ} {a : α} {es : List (κ × α)} (h : j ∈ (insertEntry k a es).map Prod.fst) :
    j = k ∨ j ∈ es.map Prod.fst := by
  induction es with
  | nil => simpa [insertEntry] using h
  | cons e es ih =>
    obtain ⟨i, b⟩ := e
    unfold insertEntry at h
    split at h
    · rename_i hki
      subst hki
      exact .inr h
    · split at h
      · simpa using h
      · rcases List.mem_cons.1 h with rfl | hrest
        · exact .inr List.mem_cons_self
        · exact (ih hrest).imp_right (List.mem_cons_of_mem _)

theorem mem_keys_insert (m : SortedMap κ α) (k j : κ) (a : α) : j ∈ (m.insert k a).keys ↔ j = k ∨ j ∈ m.keys := by
  rw [mem_keys_iff, mem_keys_iff]
  by_cases h : j = k
  · simp [h, get?_insert_self]
  · simp [h, get?_insert_of_ne]

theorem mem_insertEntry {k : κ} {a : α} {e : κ × α} {es : List (κ × α)} (h : e ∈ insertEntry k a es) :
    e = (k, a) ∨ e ∈ es := by
  induction es with
  | nil => exact .inl (List.mem_singleton.1 h)
  | cons d es ih =>
    unfold insertEntry at h
    split at h
    · exact (List.mem_cons.1 h).imp_right (List.mem_cons_of_mem d)
    · split at h
      · exact List.mem_cons.1 h
      · rcases List.mem_cons.1 h with rfl | h
        · exact .inr List.mem_cons_self
        · exact (ih h).imp_right (List.mem_cons_of_mem d)

/-- An insertion keeps the keys in order. -/
theorem Sorted.insert [Trans (fun a b : κ => a < b) (fun a b : κ => a < b) (fun a b : κ => a < b)]
    [Std.Trichotomous (fun a b : κ => a < b)] {m : SortedMap κ α} (h : m.Sorted) (k : κ) (a : α) :
    (m.insert k a).Sorted := by
  obtain ⟨es⟩ := m
  unfold Sorted keys at h ⊢
  unfold SortedMap.insert
  dsimp only at h ⊢
  induction es with
  | nil => exact List.pairwise_singleton ..
  | cons e es ih =>
    obtain ⟨j, b⟩ := e
    rw [List.map_cons, List.pairwise_cons] at h
    unfold insertEntry
    split
    · rename_i hkj
      subst hkj
      exact List.pairwise_cons.2 h
    · rename_i hne
      split
      · rename_i hlt
        refine List.pairwise_cons.2 ⟨?_, List.pairwise_cons.2 h⟩
        intro i hi
        rcases List.mem_cons.1 hi with rfl | hrest
        · exact hlt
        · exact Std.lt_trans hlt (h.1 i hrest)
      · rename_i hnlt
        have hjk : j < k := by
          rcases Std.lt_trichotomy k j with hlt | heq | hgt
          · exact absurd hlt hnlt
          · exact absurd heq hne
          · exact hgt
        refine List.pairwise_cons.2 ⟨?_, ih h.2⟩
        intro i hi
        rcases mem_keys_insertEntry hi with rfl | hrest
        · exact hjk
        · exact h.1 i hrest

/-- An insertion at a key that has a value leaves the keys alone. -/
theorem keys_insertEntry [Std.Asymm (fun a b : κ => a < b)] {k : κ} {a : α} {es : List (κ × α)}
    (hs : (SortedMap.mk es).Sorted) (h : k ∈ es.map Prod.fst) : (insertEntry k a es).map Prod.fst = es.map Prod.fst := by
  induction es with
  | nil => simp at h
  | cons e es ih =>
    obtain ⟨j, b⟩ := e
    unfold Sorted keys at hs
    rw [List.map_cons, List.pairwise_cons] at hs
    unfold insertEntry
    split
    · rename_i hkj
      rw [hkj]
      rfl
    · rename_i hne
      have hmem : k ∈ es.map Prod.fst := (List.mem_cons.1 h).resolve_left hne
      rw [if_neg (Std.Asymm.asymm _ _ (hs.1 k hmem)), List.map_cons, List.map_cons, ih hs.2 hmem]

theorem Sorted.keys_insert_of_mem [Std.Asymm (fun a b : κ => a < b)] {m : SortedMap κ α} {k : κ} (hs : m.Sorted)
    (h : k ∈ m.keys) (a : α) : (m.insert k a).keys = m.keys := keys_insertEntry hs h

/-- An insertion at a new key is one more entry. -/
theorem perm_insertEntry {k : κ} {a : α} {es : List (κ × α)} (h : k ∉ es.map Prod.fst) :
    (insertEntry k a es).Perm ((k, a) :: es) := by
  induction es with
  | nil => rfl
  | cons e es ih =>
    obtain ⟨j, b⟩ := e
    rw [List.map_cons, List.mem_cons, not_or] at h
    unfold insertEntry
    rw [if_neg h.1]
    split
    · rfl
    · exact ((ih h.2).cons (j, b)).trans (List.Perm.swap ..)

/-- An insertion at a new key makes no key come twice. -/
theorem nodup_keys_insert {m : SortedMap κ α} {k : κ} (h : m.keys.Nodup) (hk : k ∉ m.keys) (a : α) :
    (m.insert k a).keys.Nodup := by
  have hperm : (m.insert k a).keys.Perm (k :: m.keys) := (perm_insertEntry hk).map Prod.fst
  exact hperm.nodup_iff.2 (List.nodup_cons.2 ⟨hk, h⟩)

/-- An insertion of what is there already changes nothing. -/
theorem insertEntry_of_mem [Std.Asymm (fun a b : κ => a < b)] {k : κ} {a : α} {es : List (κ × α)}
    (hs : (SortedMap.mk es).Sorted) (h : (k, a) ∈ es) : insertEntry k a es = es := by
  induction es with
  | nil => simp at h
  | cons e es ih =>
    obtain ⟨j, b⟩ := e
    unfold Sorted keys at hs
    rw [List.map_cons, List.pairwise_cons] at hs
    rcases List.mem_cons.1 h with heq | hmem
    · obtain ⟨rfl, rfl⟩ := Prod.mk.inj heq
      simp [insertEntry]
    · have hlt : j < k := hs.1 k (List.mem_map_of_mem hmem)
      have hne : k ≠ j := by
        rintro rfl
        exact Std.Asymm.asymm _ _ hlt hlt
      unfold insertEntry
      rw [if_neg hne, if_neg (Std.Asymm.asymm _ _ hlt), ih hs.2 hmem]

section Order

variable [Std.Asymm (fun a b : κ => a < b)] [Trans (fun a b : κ => a < b) (fun a b : κ => a < b) (fun a b : κ => a < b)]
  [Std.Trichotomous (fun a b : κ => a < b)] {j k : κ}

/-- Insertions at different keys can change places. -/
theorem insertEntry_comm (h : j ≠ k) (a b : α) (es : List (κ × α)) :
    insertEntry k b (insertEntry j a es) = insertEntry j a (insertEntry k b es) := by
  have hasymm {x y : κ} (hxy : x < y) : ¬ y < x := Std.Asymm.asymm _ _ hxy
  have htotal {x y : κ} (hne : x ≠ y) (hxy : ¬ x < y) : y < x :=
    ((Std.lt_trichotomy x y).resolve_left hxy).resolve_left hne
  induction es with
  | nil => grind [insertEntry]
  | cons e es ih =>
    obtain ⟨i, c⟩ := e
    have htrans : ∀ x y z : κ, x < y → y < z → x < z := fun _ _ _ => Std.lt_trans
    grind [insertEntry]

theorem insert_comm (m : SortedMap κ α) (h : j ≠ k) (a b : α) :
    (m.insert j a).insert k b = (m.insert k b).insert j a :=
  congrArg mk (insertEntry_comm h a b m.entries)

end Order

end Insert

end Parley.SortedMap
